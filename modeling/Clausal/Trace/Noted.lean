import Clausal.Json.Parser
import Clausal.Trace.Basic
import Clausal.Validation
import Clausal.Wire.Slot

/-!
# Operations that leave notes

Reading a text, validating a predicate and decoding one note what they have done. Beside their
notes they are the operations without them.
-/

namespace Clausal

/-- Reads a text and notes its length. -/
def Located.parseNoted (parser : Parser) (t : Text) : Traced Located := do
  let l ← (Located.parse parser t : Outcome Located)
  Traced.note (.parsed t.length)
  return l

/-- Reads a text in UTF-8 and notes its length. -/
def Located.parseBytesNoted (parser : Parser) (bs : Bytes) : Traced Located :=
  match Utf8.decode bs with
  | .ok cs => parseNoted parser (Text.ofChars cs)
  | .error m => .ofOutcome (refuse (.malformedUtf8 m))

/-- Validates a predicate and notes what it binds. -/
def Predicate.validateNoted (p : Predicate) : Traced Bindings := do
  let b ← (p.validate : Outcome Bindings)
  Traced.note (.validated p.name p.contracts.length b.binders)
  return b

/-- The predicate that bytes spell, validated unless told otherwise. -/
def Predicate.decodeNoted (bs : Bytes) (validate : Bool) : Traced Predicate := do
  let p ← (Slot.predicate.decode bs : Outcome Predicate)
  if validate then
    let _ ← p.validateNoted
  Traced.note (.decoded bs.length p.name)
  return p

/-- The binary form of a predicate, validated unless told otherwise. -/
def Predicate.encodeNoted (p : Predicate) (validate : Bool) : Traced Bytes := do
  if validate then
    let _ ← p.validateNoted
  (p.encode : Outcome Bytes)

@[simp]
theorem Located.outcome_parseNoted (parser : Parser) (t : Text) :
    (Located.parseNoted parser t).outcome = Located.parse parser t := by
  unfold parseNoted
  rw [Traced.outcome_bind]
  cases Located.parse parser t <;> rfl

end Clausal
