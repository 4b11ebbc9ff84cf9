import Clausal.Wire.Decoding
import Clausal.Wire.Encoding

/-!
# Slots

What a string of bytes stands for depends on where it stands: it is one of the struct classes, or a
member of a family behind its variant. Within a slot every value has one binary form, and a node
has one slot of its own in which it is written when nothing else is said.
-/

namespace Clausal

/-- The places that a string of bytes can fill. -/
inductive Slot where
  | predicate
  | contract
  | proposition
  | constant
  | normalInput
  | compiledInput
  | predicateCall
deriving DecidableEq

namespace Slot

/-- The values of a slot. -/
abbrev Value : Slot → Type
  | predicate => Predicate
  | contract => Contract
  | proposition => Proposition
  | constant => Constant
  | normalInput => NormalInput
  | compiledInput => Input
  | predicateCall => Call

/-- The binary form of a value of a slot. -/
def encode : (s : Slot) → s.Value → Outcome Bytes
  | predicate, p => p.encode
  | contract, c => c.encode
  | proposition, p => p.encode
  | constant, c => c.encode
  | normalInput, i => i.encode
  | compiledInput, i => i.encode
  | predicateCall, c => c.encode

/-- The reader of a slot. -/
def reader : (s : Slot) → Reader s.Value
  | predicate => Predicate.reader
  | contract => Contract.reader
  | proposition => Proposition.reader
  | constant => Constant.reader
  | normalInput => NormalInput.reader
  | compiledInput => Input.reader
  | predicateCall => Call.reader

/-- The value of a slot whose binary form the bytes are. -/
def decode (s : Slot) (bs : Bytes) : Outcome s.Value := s.reader.run bs

/-- The node that a value of a slot is. -/
def toNode : (s : Slot) → s.Value → Node
  | predicate, p => .predicate p
  | contract, c => .contract c
  | proposition, p => .proposition p
  | constant, c => .constant c
  | normalInput, i => .input (.normal i)
  | compiledInput, i => .input i
  | predicateCall, c => .call c

/-- The slot of the struct class with a name. -/
def ofClassName? : String → Option Slot
  | "CompiledPredicate" => some predicate
  | "Contract" => some contract
  | "AtomicProposition" => some proposition
  | "ConstantVariable" => some constant
  | "NormalInput" => some normalInput
  | _ => none

end Slot

namespace Node

/-- The binary form of a node in the slot of its own. Placeholders have none. -/
def encode : Node → Outcome Bytes
  | predicate p => p.encode
  | contract c => c.encode
  | proposition p => p.encode
  | constant c => c.encode
  | input (.normal i) => i.encode
  | input i => i.encode
  | call c => c.encode
  | placeholder _ => refuse (.cannotEncode "Placeholder")

/-- The binary form of a node in the slot of compiled inputs. -/
def encodeInput : Node → Outcome Bytes
  | input i => i.encode
  | _ => .error (.misuse .foreignNode)

/-- The binary form of a node in the slot of predicate calls. -/
def encodeCall : Node → Outcome Bytes
  | call c => c.encode
  | _ => .error (.misuse .foreignNode)

/-- The node whose binary form in a slot the bytes are. -/
def decode (s : Slot) (bs : Bytes) : Outcome Node := s.toNode <$> s.decode bs

/-- The node of the struct class `className` whose binary form the bytes are. -/
def decodeClass (className : String) (bs : Bytes) : Outcome Node :=
  match Slot.ofClassName? className with
  | some s => decode s bs
  | none => refuse (.cannotDecode className)

end Node

end Clausal
