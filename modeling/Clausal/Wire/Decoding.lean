import Clausal.Node
import Clausal.Wire.Reader

/-!
# Reading nodes

Each reader takes one node from the front of the bytes. Tags and variants have to be the ones that
the place demands, and a contract or a predicate that has been read still has to be one: its parts
are checked together, like those of a node that comes from anywhere else.
-/

namespace Clausal

namespace Reader

variable {α : Type}

/-- The tag byte of a struct. -/
def tag (expected : NodeTag) : Reader Unit := do
  let start ← offset
  let found ← byte
  if found ≠ Vocabulary.byte expected then
    field "type" (refuse (.tagOnWire found.toNat start expected))

/-- The variant byte of a family. -/
def variant (variants : List NodeTag) : Reader NodeTag := do
  let start ← offset
  let found ← byte
  match variants[found.toNat]? with
  | some t => return t
  | none => refuse (.unknownVariant found.toNat start)

/-- The byte of a symbol. -/
def symbol [Vocabulary α] : Reader α := do
  let found ← byte
  match (Vocabulary.ofIndex? found.toNat : Option α) with
  | some s => return s
  | none => refuse (.unknownIndex (Vocabulary.title α) (Text.ofNat found.toNat))

/-- A descent path. -/
def selectors : Reader (List Int8) :=
  field "children" (sequence do
    let b ← byte
    return b.toInt8)

/-- A value behind the byte that says whether it is there. -/
def optional (r : Reader α) : Reader (Option α) := do
  let isPresent ← flag "option"
  if isPresent then
    let a ← r
    return some a
  else return none

end Reader

open Reader (field blob)

/-- Reads a reference to a parameter. -/
def NormalInput.reader : Reader NormalInput := do
  Reader.tag .normalInput
  let index ← field "inputIndex" Reader.byte
  let children ← Reader.selectors
  return { index, children }

/-- Reads a compiled input behind its variant. -/
def Input.reader : Reader Input := do
  let t ← Reader.variant inputVariants
  match t with
  | .normalInput =>
    let i ← NormalInput.reader
    return .normal i
  | .constantInput =>
    Reader.tag t
    let name ← field "name" blob
    return .constant name
  | .labelInput =>
    Reader.tag t
    let label ← field "label" blob
    return .label label
  | .variableInput =>
    Reader.tag t
    let placeholder ← field "placeholder" blob
    let children ← Reader.selectors
    return .var placeholder children
  | _ =>
    Reader.tag t
    let children ← Reader.selectors
    return .self children

/-- Reads a predicate call behind its variant. -/
def Call.reader : Reader Call := do
  let t ← Reader.variant callVariants
  Reader.tag t
  match t with
  | .atomicPredicateCall =>
    let source ← field "source" blob
    return .atomic source
  | .inputPredicateCall =>
    let source ← field "source" NormalInput.reader
    return .input source
  | .variablePredicateCall => return .var
  | _ =>
    let source ← field "source" blob
    return .compiled source

/-- Reads a proposition. -/
def Proposition.reader : Reader Proposition := do
  Reader.tag .atomicProposition
  let call ← field "predicate" Call.reader
  let inputs ← field "inputs" (Reader.sequence Input.reader)
  let isCompiled ← field "isCompiled" (Reader.optional (Reader.flag "bool"))
  return { call, inputs, isCompiled }

/-- Reads a contract entry behind its variant. -/
def Entry.reader : Reader Entry := do
  let start ← Reader.offset
  let found ← Reader.byte
  if found = 0 then
    let p ← Proposition.reader
    return .proposition p
  else if found = 1 then
    let name ← blob
    return .placeholder name
  else Reader.refuse (.unknownEntryVariant found.toNat start)

/-- Reads a contract whose inputs fit its connective. -/
def Contract.reader : Reader Contract := do
  Reader.tag .intermediateCompiledPredicate
  let name ← field "name" blob
  let origin ← field "originalPredicateName" blob
  let connective ← field "connective" Reader.symbol
  let inputDefs ← field "inputDefs" (Reader.sequence blob)
  let inputs ← field "inputs" (Reader.sequence Entry.reader)
  let propertyInputs ← field "propertyInputs" (Reader.sequence NormalInput.reader)
  Reader.ofOutcome (Contract.checked
    { name, origin, connective, inputDefs, inputs, propertyInputs })

/-- Reads a declared constant. -/
def Constant.reader : Reader Constant := do
  let kind ← field "varType" Reader.symbol
  let name ← field "name" blob
  return { kind, name }

/-- Reads a compiled predicate with unique names and an entry point. -/
def Predicate.reader : Reader Predicate := do
  Reader.tag .compiledPredicate
  let name ← field "name" blob
  let inputDefs ← field "inputDefs" (Reader.sequence blob)
  let contracts ← field "contracts" (Reader.sequence Contract.reader)
  let constants ← field "constants" (Reader.optional (Reader.sequence Constant.reader))
  let entryPoint ← field "entryPoint" blob
  Reader.ofOutcome (Predicate.checked { name, inputDefs, contracts, constants, entryPoint })

end Clausal
