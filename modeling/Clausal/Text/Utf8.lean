import Clausal.Text.CodePoint

/-!
# UTF-8

Bytes are read one character at a time. A sequence is well formed when its first byte announces the
ranges of the bytes that follow and they all keep to them; that excludes overlong forms, surrogates
and numbers above U+10FFFF. What is ill formed is the longest beginning that some well-formed
sequence shares, so both the lossy and the strict reading know where they may go on.
-/

namespace Clausal

/-- A string of bytes. -/
abbrev Bytes := List UInt8

namespace Utf8

/-- Why a sequence of bytes is ill formed. -/
inductive Reason where
  | invalidStart
  | invalidContinuation
  | endOfData
deriving DecidableEq

/-- The ill-formed sequence in a string of bytes: its offset, its length and its first byte. -/
structure Malformed where
  start : Nat
  length : Nat
  first : UInt8
  reason : Reason
deriving DecidableEq

/-- A range of bytes, ends included. -/
structure ByteRange where
  low : UInt8
  high : UInt8

/-- Whether the byte lies in the range. -/
def ByteRange.contains (r : ByteRange) (b : UInt8) : Bool := r.low ≤ b && b ≤ r.high

/-- Any continuation byte. -/
def ByteRange.tail : ByteRange := ⟨0x80, 0xbf⟩

/-- The bytes that have to follow a first byte; `none` if no sequence starts with it. -/
def continuations (b : UInt8) : Option (List ByteRange) :=
  if b < 0x80 then some []
  else if b < 0xc2 then none
  else if b < 0xe0 then some [.tail]
  else if b = 0xe0 then some [⟨0xa0, 0xbf⟩, .tail]
  else if b = 0xed then some [⟨0x80, 0x9f⟩, .tail]
  else if b < 0xf0 then some [.tail, .tail]
  else if b = 0xf0 then some [⟨0x90, 0xbf⟩, .tail, .tail]
  else if b < 0xf4 then some [.tail, .tail, .tail]
  else if b = 0xf4 then some [⟨0x80, 0x8f⟩, .tail, .tail]
  else none

/-- The bits that a first byte contributes when `n` bytes follow it. -/
def leadBits (b : UInt8) (n : Nat) : Nat :=
  match n with
  | 0 => b.toNat
  | 1 => b.toNat - 0xc0
  | 2 => b.toNat - 0xe0
  | _ => b.toNat - 0xf0

/-- The outcome of following the announced ranges. -/
inductive Follow where
  | complete (number : Nat) (count : Nat)
  | stopped (count : Nat) (reason : Reason)

/-- Follows the ranges through the bytes, gathering six bits from each. -/
def follow (number count : Nat) : List ByteRange → Bytes → Follow
  | [], _ => .complete number count
  | _ :: _, [] => .stopped count .endOfData
  | r :: rs, b :: bs =>
    if r.contains b then follow (number * 64 + (b.toNat - 0x80)) (count + 1) rs bs
    else .stopped count .invalidContinuation

/-- One step of reading: a character or an ill-formed sequence, with the number of bytes after the
first that it takes. -/
inductive Step where
  | char (c : Char) (more : Nat)
  | malformed (more : Nat) (reason : Reason)

/-- Reads the sequence that starts with the byte `b`. -/
def step (b : UInt8) (bs : Bytes) : Step :=
  match continuations b with
  | none => .malformed 0 .invalidStart
  | some ranges =>
    match follow (leadBits b ranges.length) 0 ranges bs with
    | .complete n k => .char (Char.ofNat n) k
    | .stopped k reason => .malformed k reason

/-- Reads from an offset on, the characters before it gathered in reverse; stops at the first
ill-formed sequence. -/
def decodeFrom (offset : Nat) (before : List Char) : Bytes → Except Malformed (List Char)
  | [] => .ok before.reverse
  | b :: bs =>
    match step b bs with
    | .char c k => decodeFrom (offset + k + 1) (c :: before) (bs.drop k)
    | .malformed k reason => .error ⟨offset, k + 1, b, reason⟩
termination_by bs => bs.length
decreasing_by
  simp only [List.length_drop, List.length_cons]
  omega

/-- The characters that the bytes spell, or the first ill-formed sequence. -/
def decode (bs : Bytes) : Except Malformed (List Char) := decodeFrom 0 [] bs

/-- The lossy reading, the characters before the rest gathered in reverse. -/
def decodeLossyFrom (before : List Char) : Bytes → List Char
  | [] => before.reverse
  | b :: bs =>
    match step b bs with
    | .char c k => decodeLossyFrom (c :: before) (bs.drop k)
    | .malformed k _ => decodeLossyFrom ('\uFFFD' :: before) (bs.drop k)
termination_by bs => bs.length
decreasing_by
  all_goals
    simp only [List.length_drop, List.length_cons]
    omega

/-- The characters that the bytes spell, with U+FFFD for every ill-formed sequence. -/
def decodeLossy (bs : Bytes) : List Char := decodeLossyFrom [] bs

/-- The bytes of one character. -/
def encodeChar (c : Char) : Bytes :=
  let n := c.toNat
  let tail (shift : Nat) : UInt8 := UInt8.ofNat (0x80 + (n >>> shift) % 64)
  if n < 0x80 then [UInt8.ofNat n]
  else if n < 0x800 then [UInt8.ofNat (0xc0 + (n >>> 6)), tail 0]
  else if n < 0x10000 then [UInt8.ofNat (0xe0 + (n >>> 12)), tail 6, tail 0]
  else [UInt8.ofNat (0xf0 + (n >>> 18)), tail 12, tail 6, tail 0]

/-- The bytes of a list of characters. -/
def encode (cs : List Char) : Bytes := cs.flatMap encodeChar

/-- The bytes of a text; `none` if it holds a surrogate. -/
def encodeText? (t : Text) : Option Bytes := t.toChars?.map encode

end Utf8

end Clausal
