import Clausal.Json.Printer
import Clausal.Node

/-!
# Writing the authoring form

A node is written as an object of its fields in their order, without the optional fields that are
absent. Names have to be UTF-8; the path of the first that is not is reported.
-/

namespace Clausal

/-- The string that bytes spell. -/
def nameJson (bs : Bytes) : Outcome Json :=
  match Utf8.decode bs with
  | .ok cs => .ok (.string (Text.ofChars cs))
  | .error _ => refuse .fieldNotUtf8

/-- A field with its value. -/
def fieldJson (name : String) (x : Outcome Json) : Outcome (Text × Json) := do
  let j ← inField name x
  return (Text.ofString name, j)

/-- The array of items. -/
def itemsJson {α : Type} (f : α → Outcome Json) (as : List α) : Outcome Json :=
  .array <$> forItems f as

/-- The field that holds a tag. -/
def tagField (t : NodeTag) : Text × Json := ("type", .string (Text.ofString t.name))

/-- The field that holds a descent path. -/
def childrenField (children : List Int8) : Text × Json :=
  ("children", .array (children.map fun s => .int s.toInt))

/-- The object of a parameter reference. -/
def NormalInput.toJson (i : NormalInput) : Json :=
  .object [tagField .normalInput, ("inputIndex", .int i.index.toNat), childrenField i.children]

/-- The object of a compiled input. -/
def Input.toJson : Input → Outcome Json
  | constant name => do
    let name ← fieldJson "name" (nameJson name)
    return .object [tagField .constantInput, name]
  | label text => do
    let label ← fieldJson "label" (nameJson text)
    return .object [tagField .labelInput, label]
  | normal i => .ok i.toJson
  | var name children => do
    let name ← fieldJson "placeholder" (nameJson name)
    return .object [tagField .variableInput, name, childrenField children]
  | self children => .ok (.object [tagField .selfInput, childrenField children])

/-- The object of a predicate call. -/
def Call.toJson (c : Call) : Outcome Json :=
  match c with
  | atomic source | compiled source => do
    let source ← fieldJson "source" (nameJson source)
    return .object [tagField c.tag, source]
  | input source => .ok (.object [tagField c.tag, ("source", source.toJson)])
  | var => .ok (.object [tagField c.tag])

/-- The object of a proposition. -/
def Proposition.toJson (p : Proposition) : Outcome Json := do
  let call ← fieldJson "predicate" p.call.toJson
  let inputs ← fieldJson "inputs" (itemsJson Input.toJson p.inputs)
  return .object ([tagField .atomicProposition, call, inputs] ++
    (p.isCompiled.map fun b => (Text.ofString "isCompiled", Json.bool b)).toList)

/-- The object or the string of a contract entry. -/
def Entry.toJson : Entry → Outcome Json
  | proposition p => p.toJson
  | placeholder name => nameJson name

/-- The object of a contract. -/
def Contract.toJson (c : Contract) : Outcome Json := do
  let name ← fieldJson "name" (nameJson c.name)
  let origin ← fieldJson "originalPredicateName" (nameJson c.origin)
  let inputDefs ← fieldJson "inputDefs" (itemsJson nameJson c.inputDefs)
  let inputs ← fieldJson "inputs" (itemsJson Entry.toJson c.inputs)
  return .object [tagField .intermediateCompiledPredicate, name, origin,
    ("connective", .string (Text.ofString c.connective.name)), inputDefs, inputs,
    ("propertyInputs", .array (c.propertyInputs.map NormalInput.toJson))]

/-- The object of a declared constant. -/
def Constant.toJson (c : Constant) : Outcome Json := do
  let name ← fieldJson "name" (nameJson c.name)
  return .object [("varType", .string (Text.ofString (Vocabulary.spelling c.kind))), name]

/-- The object of a compiled predicate. -/
def Predicate.toJson (p : Predicate) : Outcome Json := do
  let name ← fieldJson "name" (nameJson p.name)
  let inputDefs ← fieldJson "inputDefs" (itemsJson nameJson p.inputDefs)
  let contracts ← fieldJson "contracts" (itemsJson Contract.toJson p.contracts)
  let constants ← p.constants.mapM fun cs =>
    fieldJson "constants" (itemsJson Constant.toJson cs)
  let entryPoint ← fieldJson "entryPoint" (nameJson p.entryPoint)
  return .object ([tagField .compiledPredicate, name, inputDefs, contracts] ++
    constants.toList ++ [entryPoint])

/-- The authoring form of a node. -/
def Node.toJson : Node → Outcome Json
  | input i => i.toJson
  | call c => c.toJson
  | proposition p => p.toJson
  | placeholder name => nameJson name
  | contract c => c.toJson
  | constant c => c.toJson
  | predicate p => p.toJson

end Clausal
