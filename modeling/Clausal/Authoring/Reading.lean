import Clausal.Authoring.Lowering

/-!
# Reading the authoring form

The node that a document denotes. Members may stand in any order, optional fields may be missing or
null, and unknown members are passed over unless the configuration refuses them. The first fault in
the order of the fields counts.
-/

namespace Clausal

open Lowering (build fail scalar items)

/-- The parameter reference with the numbers of its fields. -/
def NormalInput.ofNumbers (index : Int) (children : List Int) : Outcome NormalInput := do
  let index ← inField "inputIndex" (inputIndex index)
  let children ← inField "children" (selectors children)
  return { index, children }

/-- The parameter reference that a document denotes; an object with another tag is refused for
`cause`. All fields are read before the numbers are looked at. -/
def NormalInput.lower (config : Config) (cause : NodeTag → Cause) (d : Document) (path : Path) :
    Lowering NormalInput := do
  let o ← Fields.ofDocument config NodeTag.normalInput.fields d path
  o.expectTag .normalInput cause
  let index ← o.required "inputIndex" (scalar Json.asInteger)
  let children ← o.children
  build path (ofNumbers index children)

/-- The compiled input that a document denotes. -/
def Input.lower (config : Config) (d : Document) (path : Path) : Lowering Input := do
  let o ← Fields.ofDocument config [] d path
  let t ← o.tag inputVariants.contains .notCompiledInput
  if t = .normalInput then
    .normal <$> NormalInput.lower config .tagOfNormalInput d path
  else
    let o ← Fields.ofDocument config t.fields d path
    match t with
    | .constantInput => .constant <$> o.name "name"
    | .labelInput => .label <$> o.name "label"
    | .variableInput =>
      let placeholder ← o.name "placeholder"
      let children ← o.children
      build path (.var placeholder <$> inField "children" (selectors children))
    | _ =>
      let children ← o.children
      build path (.self <$> inField "children" (selectors children))

/-- The parameter reference that a call target denotes. -/
def NormalInput.lowerTarget (config : Config) (d : Document) (path : Path) :
    Lowering NormalInput :=
  match d.members? with
  | some _ => NormalInput.lower config .tagOfCallTarget d path
  | none => fail .callTargetNotObject path d

/-- The predicate call that a document denotes. -/
def Call.lower (config : Config) (d : Document) (path : Path) : Lowering Call := do
  let o ← Fields.ofDocument config [] d path
  let t ← o.tag callVariants.contains .notPredicateCall
  let o ← Fields.ofDocument config t.fields d path
  match t with
  | .variablePredicateCall => return .var
  | .inputPredicateCall => .input <$> o.required "source" (NormalInput.lowerTarget config)
  | .atomicPredicateCall => .atomic <$> o.name "source"
  | _ => .compiled <$> o.name "source"

/-- The proposition that a document denotes. -/
def Proposition.lower (config : Config) (d : Document) (path : Path) : Lowering Proposition := do
  let o ← Fields.ofDocument config NodeTag.atomicProposition.fields d path
  o.expectTag .atomicProposition (.tagOfObject · .atomicProposition)
  let call ← o.required "predicate" (Call.lower config)
  let inputs ← o.required "inputs" (items (Input.lower config))
  let isCompiled ← o.optional "isCompiled" none fun d path => some <$> scalar Json.asBoolean d path
  return { call, inputs, isCompiled }

/-- The contract entry that a document denotes: a string names a placeholder, an object is a
proposition. -/
def Entry.lower (config : Config) (d : Document) (path : Path) : Lowering Entry := do
  Lowering.record path d
  match d.text?, d.members? with
  | some t, _ => .placeholder <$> Lowering.settle path d.start? (Json.textBytes t)
  | none, some _ => .proposition <$> Proposition.lower config d path
  | none, none => fail (.entryJsonType d.value.typeName) path d

/-- The contract that a document denotes. -/
def Contract.lower (config : Config) (d : Document) (path : Path) : Lowering Contract := do
  let o ← Fields.ofDocument config NodeTag.intermediateCompiledPredicate.fields d path
  o.expectTag .intermediateCompiledPredicate (.tagOfObject · .intermediateCompiledPredicate)
  let name ← o.name "name"
  let origin ← o.name "originalPredicateName"
  let connective ← o.required "connective" (scalar Json.asSymbol)
  let inputDefs ← o.names "inputDefs"
  let inputs ← o.required "inputs" (items (Entry.lower config))
  let propertyInputs ← o.optional "propertyInputs" []
    (items (NormalInput.lower config .tagOfNormalInput))
  build path (checked { name, origin, connective, inputDefs, inputs, propertyInputs })

/-- The declared constant that a document denotes. -/
def Constant.lower (config : Config) (d : Document) (path : Path) : Lowering Constant := do
  let o ← Fields.ofDocument config constantFields d path
  let kind ← o.required "varType" (scalar Json.asSymbol)
  let name ← o.name "name"
  return { kind, name }

/-- The compiled predicate that a document denotes. -/
def Predicate.lower (config : Config) (d : Document) (path : Path) : Lowering Predicate := do
  let o ← Fields.ofDocument config NodeTag.compiledPredicate.fields d path
  o.expectTag .compiledPredicate (.tagOfObject · .compiledPredicate)
  let name ← o.name "name"
  let inputDefs ← o.names "inputDefs"
  let contracts ← o.required "contracts" (items (Contract.lower config))
  let constants ← o.optional "constants" none fun d path =>
    some <$> items (Constant.lower config) d path
  let entryPoint ← o.name "entryPoint"
  build path (checked { name, inputDefs, contracts, constants, entryPoint })

end Clausal
