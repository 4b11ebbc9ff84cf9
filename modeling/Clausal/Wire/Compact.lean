import Clausal.Fault.Outcome

/-!
# Compact integers

Lengths are written little-endian in the fewest bytes. The low two bits of the first byte select
the form: one, two or four bytes that hold the number above those bits, or a count of four to
sixty-seven bytes that follow and hold the number alone.
-/

namespace Clausal.Compact

/-- The `k` low bytes of a number, lowest first. -/
def littleEndian (n : Nat) : Nat → Bytes
  | 0 => []
  | k + 1 => UInt8.ofNat n :: littleEndian (n / 256) k

/-- The number whose bytes are given, lowest first. -/
def ofLittleEndian : Bytes → Nat
  | [] => 0
  | b :: bs => b.toNat + 256 * ofLittleEndian bs

/-- The number of bytes that a number needs. -/
def byteLength (n : Nat) : Nat := if n = 0 then 0 else byteLength (n / 256) + 1

/-- Numbers below this fit the one-byte form. -/
def singleLimit : Nat := 1 <<< 6

/-- Numbers below this fit the two-byte form. -/
def doubleLimit : Nat := 1 <<< 14

/-- Numbers below this fit the four-byte form. -/
def quadLimit : Nat := 1 <<< 30

/-- The most bytes of the counted form. -/
def maxBytes : Nat := 67

/-- The bytes of a number. -/
def encode (n : Nat) : Outcome Bytes :=
  if n < singleLimit then .ok (littleEndian (n * 4) 1)
  else if n < doubleLimit then .ok (littleEndian (n * 4 + 1) 2)
  else if n < quadLimit then .ok (littleEndian (n * 4 + 2) 4)
  else if byteLength n ≤ maxBytes then
    .ok (UInt8.ofNat ((byteLength n - 4) * 4 + 3) :: littleEndian n (byteLength n))
  else refuseShowing n (.compactTooLarge n)

/-- The bytes of an integer, which has to be a natural number. -/
def encodeInt (n : Int) : Outcome Bytes :=
  if n < 0 then refuseShowing n (.compactNegative n) else encode n.toNat

end Clausal.Compact
