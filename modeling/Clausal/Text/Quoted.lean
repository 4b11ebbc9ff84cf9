import Clausal.Text.Printable
import Clausal.Text.Utf8

/-!
# Quoted text

Messages show names between quotes, with escapes for what could not be seen: the quote in use and
the backslash, line breaks and tabs, and every unprintable character by its number. Apostrophes are
the quotes, unless the text holds one of them and no quotation mark.
-/

namespace Clausal

/-- The lower-case hexadecimal digit of a number below sixteen. -/
def hexDigit (n : Nat) : Char :=
  if n < 10 then Char.ofNat (0x30 + n) else Char.ofNat (0x57 + n)

/-- The last `width` hexadecimal digits of a number. -/
def hexDigits (width n : Nat) : List Char :=
  match width with
  | 0 => []
  | w + 1 => hexDigits w (n / 16) ++ [hexDigit (n % 16)]

/-- Two lower-case hexadecimal digits for every byte. -/
def hexOfBytes (bs : Bytes) : List Char := bs.flatMap fun b => hexDigits 2 b.toNat

/-- The apostrophe. -/
def apostrophe : Char := '\x27'

/-- The quotation mark. -/
def quotationMark : Char := '\x22'

/-- An escape by number, with the letter and the width that the number asks for. -/
def numericEscape (n : Nat) : List Char :=
  if n < 0x100 then '\\' :: 'x' :: hexDigits 2 n
  else if n < 0x10000 then '\\' :: 'u' :: hexDigits 4 n
  else '\\' :: 'U' :: hexDigits 8 n

/-- A character between quotes `q`, where `shown` says which characters stand for themselves. -/
def quoteChar (shown : Char → Bool) (q c : Char) : List Char :=
  if c = q ∨ c = '\\' then ['\\', c]
  else if c = '\n' then ['\\', 'n']
  else if c = '\r' then ['\\', 'r']
  else if c = '\t' then ['\\', 't']
  else if shown c then [c]
  else numericEscape c.toNat

/-- The quote to use, given whether the text holds apostrophes and quotation marks. -/
def chooseQuote (apostrophes quotationMarks : Bool) : Char :=
  if apostrophes && !quotationMarks then quotationMark else apostrophe

/-- A text between quotes. -/
def quoteText (t : Text) : List Char :=
  let q := chooseQuote (t.contains (.scalar apostrophe)) (t.contains (.scalar quotationMark))
  let point : CodePoint → List Char
    | .scalar c => quoteChar isPrintable q c
    | .surrogate o => numericEscape (CodePoint.surrogate o).toNat
  q :: t.flatMap point ++ [q]

/-- A string of bytes between quotes: each byte as the character of its number, marked by a `b`. -/
def quoteBytes (bs : Bytes) : List Char :=
  let cs := bs.map fun b => Char.ofNat b.toNat
  let q := chooseQuote (cs.contains apostrophe) (cs.contains quotationMark)
  'b' :: q :: cs.flatMap (quoteChar (fun c => ' ' ≤ c && c ≤ '~') q) ++ [q]

end Clausal
