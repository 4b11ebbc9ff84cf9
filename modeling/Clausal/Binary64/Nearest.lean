/-!
# The nearest double

A decimal fraction is rounded to the nearest double of 64 bits, a tie to the one with an even
significand. Quotients are exact: a double is a significand below `2 ^ 53` times a power of two
from `2 ^ -1074` on, so rounding is one division with the right power as the unit.
-/

namespace Clausal.Binary64

/-- The bits of positive infinity. -/
def infinity : Nat := 2047 <<< 52

/-- The quotient rounded to the nearest integer, a tie to the even one. -/
def divideToNearest (num den : Nat) : Nat :=
  let q := num / den
  let r := num % den
  if 2 * r < den then q
  else if den < 2 * r then q + 1
  else q + q % 2

/-- The quotient in units of `2 ^ u`, as numerator and denominator. -/
def inUnits (num den : Nat) (u : Int) : Nat × Nat :=
  if 0 ≤ u then (num, den <<< u.toNat) else (num <<< (-u).toNat, den)

/-- The exponent of the unit in the last place for a positive quotient. -/
def unitExponent (num den : Nat) : Int :=
  let u := max ((num.log2 : Int) - (den.log2 : Int) - 52) (-1074)
  let (n, d) := inUnits num den u
  if n / d < 1 <<< 52 then max (u - 1) (-1074) else u

/-- The bits of the double nearest to a positive quotient. A significand that rounds up to the next
power of two carries into the exponent. -/
def ofQuotient (num den : Nat) : Nat :=
  let u := unitExponent num den
  let (n, d) := inUnits num den u
  let m := divideToNearest n d
  let bits := if m < 1 <<< 52 then m else ((u + 1074).toNat <<< 52) + m
  min bits infinity

/-- The number of decimal digits of a number, none for zero. -/
def decimalLength (n : Nat) : Nat := if n = 0 then 0 else (toString n).length

/-- The bits of the double nearest to `± digits * 10 ^ exponent`. Far outside the range of doubles
the result is infinity or zero, whatever the digits. -/
def ofDecimal (negative : Bool) (digits : Nat) (exponent : Int) : UInt64 :=
  let size := exponent + decimalLength digits
  let magnitude :=
    if digits = 0 || size < -330 then 0
    else if 310 < size then infinity
    else if 0 ≤ exponent then ofQuotient (digits * Nat.pow 10 exponent.toNat) 1
    else ofQuotient digits (Nat.pow 10 (-exponent).toNat)
  UInt64.ofNat (if negative then (1 <<< 63) + magnitude else magnitude)

end Clausal.Binary64
