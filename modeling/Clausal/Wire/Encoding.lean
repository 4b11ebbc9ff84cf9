import Clausal.Node
import Clausal.Wire.Compact

/-!
# The binary form of nodes

A symbol is the byte of its number, a struct is its tag and then its fields in order, an option is
a flag byte and then the value, bytes and sequences have their number in front. A compiled input, a
predicate call or a contract entry starts with the number of its variant. The only values without
a binary form are those with more parts than a compact integer can count.
-/

namespace Clausal

namespace Wire

/-- The byte of a variant. -/
def variant (variants : List NodeTag) (t : NodeTag) : UInt8 := UInt8.ofNat (variants.idxOf t)

/-- Bytes with their number in front. -/
def blob (bs : Bytes) : Outcome Bytes := do
  let n ← Compact.encode bs.length
  return n ++ bs

/-- Items with their number in front. -/
def sequence {α : Type} (encode : α → Outcome Bytes) (as : List α) : Outcome Bytes := do
  let n ← Compact.encode as.length
  let bs ← as.mapM encode
  return n ++ bs.flatten

/-- A descent path. -/
def selectors (children : List Int8) : Outcome Bytes :=
  sequence (fun s => .ok [s.toUInt8]) children

/-- An optional flag. -/
def flag? : Option Bool → Bytes
  | none => [0]
  | some b => [1, if b then 1 else 0]

end Wire

/-- The bytes of a reference to a parameter. -/
def NormalInput.encode (i : NormalInput) : Outcome Bytes := do
  let children ← Wire.selectors i.children
  return Vocabulary.byte NodeTag.normalInput :: i.index :: children

/-- The bytes of a compiled input as a struct, tag first. -/
def Input.encodeStruct : Input → Outcome Bytes
  | constant name => do
    let bs ← Wire.blob name
    return Vocabulary.byte NodeTag.constantInput :: bs
  | label text => do
    let bs ← Wire.blob text
    return Vocabulary.byte NodeTag.labelInput :: bs
  | normal n => n.encode
  | var placeholder children => do
    let bs ← Wire.blob placeholder
    let cs ← Wire.selectors children
    return Vocabulary.byte NodeTag.variableInput :: (bs ++ cs)
  | self children => do
    let cs ← Wire.selectors children
    return Vocabulary.byte NodeTag.selfInput :: cs

/-- The bytes of a compiled input behind its variant. -/
def Input.encode (i : Input) : Outcome Bytes := do
  let struct ← i.encodeStruct
  return Wire.variant inputVariants i.tag :: struct

/-- The bytes of what a call refers to. -/
def Call.encodeSource : Call → Outcome Bytes
  | atomic source | compiled source => Wire.blob source
  | input source => source.encode
  | var => return []

/-- The bytes of a predicate call behind its variant. -/
def Call.encode (c : Call) : Outcome Bytes := do
  let source ← c.encodeSource
  return Wire.variant callVariants c.tag :: Vocabulary.byte c.tag :: source

/-- The bytes of a proposition. -/
def Proposition.encode (p : Proposition) : Outcome Bytes := do
  let call ← p.call.encode
  let inputs ← Wire.sequence Input.encode p.inputs
  return Vocabulary.byte NodeTag.atomicProposition :: (call ++ inputs ++ Wire.flag? p.isCompiled)

/-- The bytes of a contract entry behind its variant. -/
def Entry.encode : Entry → Outcome Bytes
  | proposition p => do
    let bs ← p.encode
    return 0 :: bs
  | placeholder name => do
    let bs ← Wire.blob name
    return 1 :: bs

/-- The bytes of a contract. -/
def Contract.encode (c : Contract) : Outcome Bytes := do
  let name ← Wire.blob c.name
  let origin ← Wire.blob c.origin
  let inputDefs ← Wire.sequence Wire.blob c.inputDefs
  let inputs ← Wire.sequence Entry.encode c.inputs
  let propertyInputs ← Wire.sequence NormalInput.encode c.propertyInputs
  return Vocabulary.byte NodeTag.intermediateCompiledPredicate :: (name ++ origin ++
    Vocabulary.byte c.connective :: (inputDefs ++ inputs ++ propertyInputs))

/-- The bytes of a declared constant. -/
def Constant.encode (c : Constant) : Outcome Bytes := do
  let name ← Wire.blob c.name
  return Vocabulary.byte c.kind :: name

/-- The bytes of optional constants. -/
def Constant.encodeAll? : Option (List Constant) → Outcome Bytes
  | none => .ok [0]
  | some cs => do
    let bs ← Wire.sequence Constant.encode cs
    return 1 :: bs

/-- The bytes of a compiled predicate. -/
def Predicate.encode (p : Predicate) : Outcome Bytes := do
  let name ← Wire.blob p.name
  let inputDefs ← Wire.sequence Wire.blob p.inputDefs
  let contracts ← Wire.sequence Contract.encode p.contracts
  let constants ← Constant.encodeAll? p.constants
  let entryPoint ← Wire.blob p.entryPoint
  return Vocabulary.byte NodeTag.compiledPredicate ::
    (name ++ inputDefs ++ contracts ++ constants ++ entryPoint)

end Clausal
