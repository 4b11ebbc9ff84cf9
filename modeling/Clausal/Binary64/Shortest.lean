import Clausal.Binary64.Nearest

/-!
# The shortest decimal

A double is shown by the decimal with the fewest digits that is read as that double, by the nearest
of those, and by the even one of two that are equally near. Multiples of a power of ten form a grid,
and a grid holds a decimal that is read as the double only if one of the double's two neighbours on
it is; so the grids are tried from the coarsest on.
-/

namespace Clausal.Binary64

/-- Whether the double is negative, zero included. -/
def isNegative (bits : UInt64) : Bool := 1 <<< 63 ≤ bits.toNat

/-- The bits of the double without its sign. -/
def magnitude (bits : UInt64) : Nat := bits.toNat % (1 <<< 63)

/-- The value of a finite magnitude, as numerator and denominator. -/
def quotient (magnitude : Nat) : Nat × Nat :=
  if magnitude < 1 <<< 52 then (magnitude, 1 <<< 1074)
  else
    let significand := (1 <<< 52) + magnitude % (1 <<< 52)
    let exponent := magnitude >>> 52
    if exponent < 1075 then (significand, 1 <<< (1075 - exponent))
    else (significand <<< (exponent - 1075), 1)

/-- The integer that a double is, if it is one. -/
def toInt? (bits : UInt64) : Option Int :=
  if infinity ≤ magnitude bits then none
  else
    let (num, den) := quotient (magnitude bits)
    if num % den = 0 then some (if isNegative bits then -(num / den : Nat) else (num / den : Nat))
    else none

/-- Whether `digits * 10 ^ exponent` is read as a magnitude. -/
def readsAs (magnitude digits : Nat) (exponent : Int) : Bool :=
  (ofDecimal false digits exponent).toNat == magnitude

/-- The multiple of `10 ^ exponent` that is read as a magnitude and nearest to it. -/
def onGrid? (magnitude : Nat) (exponent : Int) : Option Nat :=
  let (num, den) := quotient magnitude
  let (n, d) :=
    if 0 ≤ exponent then (num, den * Nat.pow 10 exponent.toNat)
    else (num * Nat.pow 10 (-exponent).toNat, den)
  match readsAs magnitude (n / d) exponent, readsAs magnitude (n / d + 1) exponent with
  | true, true => some (divideToNearest n d)
  | true, false => some (n / d)
  | false, true => some (n / d + 1)
  | false, false => none

/-- The first grid that holds a decimal for a magnitude, from `10 ^ exponent` on. -/
def shortestFrom (magnitude : Nat) (exponent : Int) : Nat → Nat × Int
  | 0 => (0, exponent)
  | tries + 1 =>
    match onGrid? magnitude exponent with
    | some digits => (digits, exponent)
    | none => shortestFrom magnitude (exponent - 1) tries

/-- The digits and the exponent of the shortest decimal for a finite magnitude. The coarsest grid is
that of the power of ten above the magnitude. The least double is about `5 * 10 ^ -324`, and
seventeen digits tell all doubles apart. -/
def shortest (magnitude : Nat) : Nat × Int :=
  let (num, den) := quotient magnitude
  let whole := decimalLength (num / den)
  shortestFrom magnitude whole (whole + 345)

/-- An exponent of ten: a sign and two digits or more. -/
def showExponent (e : Int) : String :=
  (if e < 0 then "e-" else "e+") ++ (if e.natAbs < 10 then "0" else "") ++ toString e.natAbs

/-- The text of `digits * 10 ^ exponent`, with a digit on either side of the point where it is
written without an exponent, which is from `10 ^ -4` on and below `10 ^ 16`. -/
def showDecimal (digits : Nat) (exponent : Int) : String :=
  let ds := toString digits
  let point : Int := ds.length + exponent
  let zeros (n : Int) : String := String.ofList (List.replicate n.toNat '0')
  if -4 < point ∧ point ≤ 16 then
    if point ≤ 0 then "0." ++ zeros (-point) ++ ds
    else if 0 ≤ exponent then ds ++ zeros exponent ++ ".0"
    else
      String.ofList (ds.toList.take point.toNat) ++ "." ++
        String.ofList (ds.toList.drop point.toNat)
  else
    String.ofList (ds.toList.take 1) ++
      (if 1 < ds.length then "." ++ String.ofList (ds.toList.drop 1) else "") ++
      showExponent (point - 1)

/-- Whether the double is not a number. -/
def isNaN (bits : UInt64) : Bool := infinity < magnitude bits

/-- How doubles that are no decimals are written. -/
structure SpecialWords where
  infinity : String
  notNumber : String

/-- The text of a double, with the given words for those that are no decimals. Only a value that is
a number has a sign. -/
def toTextWith (words : SpecialWords) (bits : UInt64) : String :=
  if isNaN bits then words.notNumber
  else
    (if isNegative bits then "-" else "") ++
      (if magnitude bits = 0 then "0.0"
      else if magnitude bits = infinity then words.infinity
      else
        let (digits, exponent) := shortest (magnitude bits)
        showDecimal digits exponent)

/-- The text of a double among shown arguments. -/
def toText : UInt64 → String := toTextWith ⟨"inf", "nan"⟩

end Clausal.Binary64
