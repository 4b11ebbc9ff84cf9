import Clausal.Text.CodePoint
import Clausal.Text.DecimalDigit

/-!
# Integers in settings

Settings are typed by people, so an integer may stand between blanks, carry a sign and leading
zeros, group its digits by single low lines, and use the decimal digits of any script.
-/

namespace Clausal

/-- Blanks beyond ASCII. -/
def wideBlanks : List Nat :=
  [0x85, 0xa0, 0x1680, 0x2000, 0x2001, 0x2002, 0x2003, 0x2004, 0x2005, 0x2006, 0x2007, 0x2008,
    0x2009, 0x200a, 0x2028, 0x2029, 0x202f, 0x205f, 0x3000]

/-- The space and the controls that move the print position. -/
def isAsciiBlank (c : Char) : Bool := c = ' ' || ('\t' ≤ c && c ≤ '\r')

/-- Blanks of any kind: the ASCII ones, the information separators and those beyond ASCII. -/
def isBlank (c : Char) : Bool :=
  isAsciiBlank c || ('\x1c' ≤ c && c ≤ '\x1f') || wideBlanks.contains c.toNat

/-- The most digits that an integer may be spelled or shown with. -/
def maxIntegerDigits : Nat := 4300

/-- The least integer with more digits. -/
def integerLimit : Nat := Nat.pow 10 maxIntegerDigits

/-- What a character counts as in an integer. -/
inductive IntegerMark where
  | blank
  | sign (negative : Bool)
  | digit (value : Nat)
  | group
  | other

/-- Classifies a character. Information separators are no blanks here. -/
def IntegerMark.ofChar (c : Char) : IntegerMark :=
  if isAsciiBlank c || wideBlanks.contains c.toNat then blank
  else if c = '-' then sign true
  else if c = '+' then sign false
  else if c = '_' then group
  else match decimalValue? c with
    | some v => digit v
    | none => other

/-- Reads digits, grouped by single low lines, up to the end; blanks may follow the last digit.
`value` and `count` belong to the digits before, and there is at least one. -/
def readDigits (value count : Nat) : List IntegerMark → Option (Nat × Nat)
  | [] => some (value, count)
  | .digit d :: rest => readDigits (value * 10 + d) (count + 1) rest
  | .group :: .digit d :: rest => readDigits (value * 10 + d) (count + 1) rest
  | .blank :: rest => if rest.all (· matches .blank) then some (value, count) else none
  | _ => none

/-- Reads an unsigned integer with at most `maxIntegerDigits` digits. -/
def readUnsigned : List IntegerMark → Option Nat
  | .digit d :: rest =>
    (readDigits d 1 rest).bind fun (value, count) =>
      if count ≤ maxIntegerDigits then some value else none
  | _ => none

/-- The integer that a setting spells. -/
def readInteger? (t : Text) : Option Int := do
  let cs ← t.toChars?
  let marks := (cs.map IntegerMark.ofChar).dropWhile (· matches .blank)
  match marks with
  | .sign true :: rest => (readUnsigned rest).map fun n => -(n : Int)
  | .sign false :: rest => (readUnsigned rest).map Int.ofNat
  | rest => (readUnsigned rest).map Int.ofNat

/-- Whether a text holds nothing but blanks. -/
def isBlankText (t : Text) : Bool :=
  t.all fun
    | .scalar c => isBlank c
    | .surrogate _ => false

end Clausal
