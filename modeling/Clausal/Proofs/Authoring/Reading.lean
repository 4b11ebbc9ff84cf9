import Clausal.Authoring.Reading

/-!
# Reading values

What a value denotes, looked at by itself: reading without a table of positions, and with faults
whose paths start at the value. Lowering a document does what reading its value does, and gives the
faults their positions.
-/

namespace Clausal

/-- The members of an object. -/
abbrev Members := List (Text × Json)

namespace Json

/-- The members of an object. -/
def asMembers : Json → Outcome Members
  | object ms => .ok ms
  | j => j.mismatch "an object"

/-- The items of an array, each read by `read`. -/
def asItems {α : Type} (read : Json → Outcome α) : Json → Outcome (List α)
  | array js => forItems read js
  | j => j.mismatch "an array"

end Json

namespace Members

/-- Refuses the first member that is not among the fields, if the configuration says so. -/
def checkFields (config : Config) (fields : List String) (ms : Members) : Outcome Unit :=
  if config.rejectUnknownFields then
    match ms.find? fun m => !(fields.map Text.ofString).contains m.1 with
    | some (k, _) => refuse (.unknownField k) [.field k]
    | none => .ok ()
  else .ok ()

/-- The members of an object with the given fields. -/
def ofJson (config : Config) (fields : List String) (j : Json) : Outcome Members := do
  let ms ← j.asMembers
  checkFields config fields ms
  return ms

/-- The value of a field. -/
def get? (ms : Members) (name : String) : Option Json := ms.lookup (Text.ofString name)

/-- Reads the value of a field that has to be there. -/
def required {α : Type} (ms : Members) (name : String) (read : Json → Outcome α) : Outcome α :=
  inField name
    (match get? ms name with
    | some j => read j
    | none => refuse (.missingField name))

/-- Reads the value of a field that may be missing or null. -/
def optional {α : Type} (ms : Members) (name : String) (default : α) (read : Json → Outcome α) :
    Outcome α :=
  match get? ms name with
  | some .null | none => .ok default
  | some j => inField name (read j)

/-- The tag of an object, which has to satisfy `accept`; otherwise it is refused for `cause`. -/
def tag (ms : Members) (accept : NodeTag → Bool) (cause : NodeTag → Cause) : Outcome NodeTag :=
  required ms "type" fun j => do
    let t ← j.asSymbol
    if accept t then return t else refuse (cause t)

/-- Checks that an object has a tag. -/
def expectTag (ms : Members) (expected : NodeTag) (cause : NodeTag → Cause) : Outcome Unit := do
  let _ ← tag ms (· == expected) cause

/-- The integers of the field `children`; none if it is missing. -/
def children (ms : Members) : Outcome (List Int) :=
  optional ms "children" [] (Json.asItems Json.asInteger)

end Members

open Members (required optional)

/-- The parameter reference that a value denotes; an object with another tag is refused for
`cause`. All fields are read before the numbers are looked at. -/
def NormalInput.ofJson (config : Config) (cause : NodeTag → Cause) (j : Json) :
    Outcome NormalInput := do
  let ms ← Members.ofJson config NodeTag.normalInput.fields j
  Members.expectTag ms .normalInput cause
  let index ← required ms "inputIndex" Json.asInteger
  let children ← Members.children ms
  let index ← inField "inputIndex" (inputIndex index)
  let children ← inField "children" (selectors children)
  return { index, children }

/-- The compiled input that a value denotes. -/
def Input.ofJson (config : Config) (j : Json) : Outcome Input := do
  let ms ← j.asMembers
  let t ← Members.tag ms inputVariants.contains .notCompiledInput
  Members.checkFields config t.fields ms
  match t with
  | .normalInput => .normal <$> NormalInput.ofJson config .tagOfNormalInput j
  | .constantInput => .constant <$> required ms "name" Json.asName
  | .labelInput => .label <$> required ms "label" Json.asName
  | .variableInput =>
    let placeholder ← required ms "placeholder" Json.asName
    let children ← Members.children ms
    .var placeholder <$> inField "children" (selectors children)
  | _ =>
    let children ← Members.children ms
    .self <$> inField "children" (selectors children)

/-- The predicate call that a value denotes. -/
def Call.ofJson (config : Config) (j : Json) : Outcome Call := do
  let ms ← j.asMembers
  let t ← Members.tag ms callVariants.contains .notPredicateCall
  Members.checkFields config t.fields ms
  match t with
  | .variablePredicateCall => return .var
  | .inputPredicateCall =>
    .input <$> required ms "source" fun
      | .object source => NormalInput.ofJson config .tagOfCallTarget (.object source)
      | _ => refuse .callTargetNotObject
  | .atomicPredicateCall => .atomic <$> required ms "source" Json.asName
  | _ => .compiled <$> required ms "source" Json.asName

/-- The proposition that a value denotes. -/
def Proposition.ofJson (config : Config) (j : Json) : Outcome Proposition := do
  let ms ← Members.ofJson config NodeTag.atomicProposition.fields j
  Members.expectTag ms .atomicProposition (.tagOfObject · .atomicProposition)
  let call ← required ms "predicate" (Call.ofJson config)
  let inputs ← required ms "inputs" (Json.asItems (Input.ofJson config))
  let isCompiled ← optional ms "isCompiled" none fun j => some <$> j.asBoolean
  return { call, inputs, isCompiled }

/-- The contract entry that a value denotes: a string names a placeholder, an object is a
proposition. -/
def Entry.ofJson (config : Config) : Json → Outcome Entry
  | .string t => .placeholder <$> Json.textBytes t
  | .object ms => .proposition <$> Proposition.ofJson config (.object ms)
  | j => refuse (.entryJsonType j.typeName)

/-- The contract that a value denotes. -/
def Contract.ofJson (config : Config) (j : Json) : Outcome Contract := do
  let ms ← Members.ofJson config NodeTag.intermediateCompiledPredicate.fields j
  Members.expectTag ms .intermediateCompiledPredicate
    (.tagOfObject · .intermediateCompiledPredicate)
  let name ← required ms "name" Json.asName
  let origin ← required ms "originalPredicateName" Json.asName
  let connective ← required ms "connective" Json.asSymbol
  let inputDefs ← required ms "inputDefs" (Json.asItems Json.asName)
  let inputs ← required ms "inputs" (Json.asItems (Entry.ofJson config))
  let propertyInputs ← optional ms "propertyInputs" []
    (Json.asItems (NormalInput.ofJson config .tagOfNormalInput))
  checked { name, origin, connective, inputDefs, inputs, propertyInputs }

/-- The declared constant that a value denotes. -/
def Constant.ofJson (config : Config) (j : Json) : Outcome Constant := do
  let ms ← Members.ofJson config constantFields j
  let kind ← required ms "varType" Json.asSymbol
  let name ← required ms "name" Json.asName
  return { kind, name }

/-- The compiled predicate that a value denotes. -/
def Predicate.ofJson (config : Config) (j : Json) : Outcome Predicate := do
  let ms ← Members.ofJson config NodeTag.compiledPredicate.fields j
  Members.expectTag ms .compiledPredicate (.tagOfObject · .compiledPredicate)
  let name ← required ms "name" Json.asName
  let inputDefs ← required ms "inputDefs" (Json.asItems Json.asName)
  let contracts ← required ms "contracts" (Json.asItems (Contract.ofJson config))
  let constants ← optional ms "constants" none fun j =>
    some <$> j.asItems (Constant.ofJson config)
  let entryPoint ← required ms "entryPoint" Json.asName
  checked { name, inputDefs, contracts, constants, entryPoint }

end Clausal
