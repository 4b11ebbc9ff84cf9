import Clausal.Wire.Compact

/-!
# Reading bytes

A reader takes what it needs from the front of the bytes and leaves the rest. It knows the offset
of what is left, for its messages. Only the shortest spelling of every value is accepted.
-/

namespace Clausal

/-- Bytes still to be read and the offset at which they start. -/
structure Cursor where
  offset : Nat
  rest : Bytes

/-- A reader of a value at the front of a string of bytes. -/
abbrev Reader (α : Type) := StateT Cursor Outcome α

namespace Reader

variable {α : Type}

/-- Refuses to read on. -/
def refuse (cause : Cause) (path : Path := []) : Reader α := fun _ => Clausal.refuse cause path

/-- Reads a field. -/
def field (name : String) (r : Reader α) : Reader α := fun c => Clausal.inField name (r c)

/-- Reads an item of a sequence. -/
def item (i : Nat) (r : Reader α) : Reader α := fun c => Clausal.inItem i (r c)

/-- Lifts an outcome that needs no bytes. -/
def ofOutcome (x : Outcome α) : Reader α := fun c => x.map fun a => (a, c)

/-- The offset reached. -/
def offset : Reader Nat := fun c => .ok (c.offset, c)

/-- The next `n` bytes. -/
def take (n : Nat) : Reader Bytes := fun c =>
  let chunk := c.rest.take n
  if chunk.length < n then Clausal.refuse (.truncated n c.offset c.rest.length)
  else .ok (chunk, ⟨c.offset + n, c.rest.drop n⟩)

/-- The next byte. -/
def byte : Reader UInt8 := fun c =>
  match c.rest with
  | [] => Clausal.refuse (.truncated 1 c.offset 0)
  | b :: bs => .ok (b, ⟨c.offset + 1, bs⟩)

/-- A byte that is zero or one; `what` says what it decides. -/
def flag (what : String) : Reader Bool := do
  let start ← offset
  let b ← byte
  if b.toNat > 1 then refuse (.flagByte what b.toNat start)
  return b == 1

/-- A compact integer `n` spelled from `start` on, provided that no shorter form holds it. -/
def minimal (start n least : Nat) : Reader Nat :=
  if n < least then refuse (.notMinimal n start) else pure n

/-- A compact integer in its shortest form. -/
def compact : Reader Nat := do
  let start ← offset
  let first ← byte
  match first.toNat % 4 with
  | 0 => return first.toNat / 4
  | 1 =>
    let more ← take 1
    minimal start (Compact.ofLittleEndian (first :: more) / 4) Compact.singleLimit
  | 2 =>
    let more ← take 3
    minimal start (Compact.ofLittleEndian (first :: more) / 4) Compact.doubleLimit
  | _ =>
    let raw ← take (first.toNat / 4 + 4)
    if raw.getLast? = some 0 then refuse (.zeroHighByte start)
    minimal start (Compact.ofLittleEndian raw) Compact.quadLimit

/-- Bytes with their number in front. -/
def blob : Reader Bytes := do
  let n ← compact
  take n

/-- `n` items in a row, counted from `i`. -/
def items (r : Reader α) (i : Nat) : Nat → Reader (List α)
  | 0 => pure []
  | n + 1 => do
    let a ← item i r
    let as ← items r (i + 1) n
    return a :: as

/-- Items with their number in front. Every item takes at least one byte, so a number beyond the
rest of the bytes is refused before any item is read. -/
def sequence (r : Reader α) : Reader (List α) := do
  let n ← compact
  let c ← get
  if n > c.rest.length then refuse (.sequenceTooLong n c.offset)
  items r 0 n

/-- Reads all of the bytes. -/
def run (r : Reader α) (bs : Bytes) : Outcome α :=
  match r ⟨0, bs⟩ with
  | .error e => .error e
  | .ok (a, c) =>
    if c.rest.isEmpty then .ok a else Clausal.refuse (.trailingBytes c.rest.length c.offset)

end Reader

/-- The integer that the bytes spell in compact form. -/
def Compact.decode (bs : Bytes) : Outcome Nat := Reader.compact.run bs

end Clausal
