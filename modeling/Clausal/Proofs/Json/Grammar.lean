import Clausal.Json.Token
import Clausal.Json.Basic
import Mathlib.Data.Nat.Digits.Defs

/-!
# The grammar of JSON texts

Which texts spell which values, one production of RFC 8259 after the other and without a word on how
texts are read. Members are spelled in their order, also those that repeat a name. A literal without
fraction and exponent spells an integer, any other literal the double nearest to it.
-/

namespace Clausal

/-- White space: spaces, horizontal tabs, line feeds and carriage returns. -/
def Text.Gap (w : Text) : Prop :=
  ∀ c ∈ w, c = .scalar ' ' ∨ c = .scalar '\t' ∨ c = .scalar '\n' ∨ c = .scalar '\r'

/-! ### Numbers -/

/-- The code point of a digit. -/
def Digit.codePoint (d : Digit) : CodePoint := .scalar (Char.ofNat (48 + d.val))

/-- Digits one after the other. -/
def Digit.spelling (ds : List Digit) : Text := ds.map codePoint

/-- The letter, the sign if there is one, and the digits of an exponent. -/
def ExponentPart.spelling (e : ExponentPart) : Text :=
  .scalar (if e.upperCase then 'E' else 'e') ::
    ((e.sign.map fun minus => .scalar (if minus then '-' else '+')).toList ++
      Digit.spelling e.digits)

namespace NumberLiteral

/-- Digits before a point: a zero alone, or digits that do not start with one. -/
inductive IsWhole : List Digit → Prop
  | zero : IsWhole [0]
  | positive {d : Digit} (ds : List Digit) (ne_zero : d ≠ 0) : IsWhole (d :: ds)

/-- Before the point stand digits as they may stand there; a point and the letter of an exponent
are followed by digits. -/
structure WellFormed (l : NumberLiteral) : Prop where
  whole : IsWhole l.whole
  fraction : ∀ ds, l.fraction = some ds → ds ≠ []
  exponent : ∀ e, l.exponent = some e → e.digits ≠ []

/-- A point and the digits behind it. -/
def fractionSpelling (ds : List Digit) : Text := .scalar '.' :: Digit.spelling ds

/-- The sign if there is one, the digits before the point, the fraction and the exponent. -/
def spelling (l : NumberLiteral) : Text :=
  (if l.negative then [.scalar '-'] else []) ++ (Digit.spelling l.whole ++
    (l.fraction.elim [] fractionSpelling ++ l.exponent.elim [] ExponentPart.spelling))

/-- The value that a literal denotes. -/
def json (l : NumberLiteral) : Json :=
  if l.fraction = none ∧ l.exponent = none then
    let n : Nat := Nat.ofDigits 10 (l.whole.reverse.map Fin.val)
    .int (if l.negative then -(n : Int) else n)
  else .float l.toDouble

end NumberLiteral

/-! ### Strings -/

/-- The letters that stand for a character after a backslash, with these characters. -/
def shortEscapes : List (Char × Char) :=
  [('\x22', '\x22'), ('\\', '\\'), ('/', '/'), ('b', '\x08'), ('f', '\x0c'), ('n', '\n'),
    ('r', '\r'), ('t', '\t')]

/-- A hexadecimal digit, of either case, with its value. -/
def HexDigit (c : CodePoint) (n : Nat) : Prop :=
  n < 16 ∧ ∃ d, c = .scalar d ∧
    ("0123456789abcdef".toList[n]? = some d ∨ "0123456789ABCDEF".toList[n]? = some d)

namespace StringPart

/-- How one part of a string is spelled: a code point stands for itself, or a character or a 16-bit
unit is escaped. -/
inductive Spelled : StringPart → Text → Prop
  | plain {c : CodePoint} (control : 0x20 ≤ c.toNat) (quote : c ≠ .scalar '\x22')
      (backslash : c ≠ .scalar '\\') : Spelled (.point c) [c]
  | short {letter c : Char} (mem : (letter, c) ∈ shortEscapes) :
      Spelled (.point (.scalar c)) [.scalar '\\', .scalar letter]
  | unit {a b c d : CodePoint} {i j k l : Nat} (ha : HexDigit a i) (hb : HexDigit b j)
      (hc : HexDigit c k) (hd : HexDigit d l) :
      Spelled (.unit (UInt16.ofNat (((i * 16 + j) * 16 + k) * 16 + l)))
        [.scalar '\\', .scalar 'u', a, b, c, d]

/-- Parts one after the other. -/
inductive AllSpelled : List StringPart → Text → Prop
  | nil : AllSpelled [] []
  | cons {p : StringPart} {ps : List StringPart} {s t : Text} (head : p.Spelled s)
      (tail : AllSpelled ps t) : AllSpelled (p :: ps) (s ++ t)

/-- A unit that is the first half of a surrogate pair. -/
def HighSurrogate (u : UInt16) : Prop := 0xd800 ≤ u ∧ u < 0xdc00

/-- A unit that is the second half of a surrogate pair. -/
def LowSurrogate (u : UInt16) : Prop := 0xdc00 ≤ u ∧ u < 0xe000

/-- What parts denote: two units that form a surrogate pair are one character, any other unit stands
for itself. -/
inductive Denote : List StringPart → Text → Prop
  | nil : Denote [] []
  | point {c : CodePoint} {ps : List StringPart} {t : Text} (tail : Denote ps t) :
      Denote (.point c :: ps) (c :: t)
  | pair {u v : UInt16} {ps : List StringPart} {t : Text} (high : HighSurrogate u)
      (low : LowSurrogate v) (tail : Denote ps t) :
      Denote (.unit u :: .unit v :: ps)
        (.scalar (Char.ofNat (0x10000 + (u.toNat - 0xd800) * 0x400 + (v.toNat - 0xdc00))) :: t)
  | lone {u : UInt16} {ps : List StringPart} {t : Text}
      (single : HighSurrogate u → ∀ v qs, ps = .unit v :: qs → ¬LowSurrogate v)
      (tail : Denote ps t) : Denote (.unit u :: ps) (.ofUnit u :: t)

end StringPart

/-- A text between quotation marks: `t` is what the spelling `s` denotes. -/
def Text.Quoted (t s : Text) : Prop :=
  ∃ ps body, StringPart.AllSpelled ps body ∧ StringPart.Denote ps t ∧
    s = .scalar '\x22' :: body ++ [.scalar '\x22']

/-! ### Values -/

namespace Json

mutual

/-- How a value is spelled. -/
inductive Spelled : Json → Text → Prop
  | null : Spelled .null "null"
  | false : Spelled (.bool false) "false"
  | true : Spelled (.bool true) "true"
  | number {l : NumberLiteral} (wellFormed : l.WellFormed) : Spelled l.json l.spelling
  | string {t s : Text} (quoted : t.Quoted s) : Spelled (.string t) s
  | emptyArray {w : Text} (gap : w.Gap) : Spelled (.array []) (.scalar '[' :: w ++ [.scalar ']'])
  | array {js : List Json} {s : Text} (items : ItemsSpelled js s) :
      Spelled (.array js) (.scalar '[' :: s ++ [.scalar ']'])
  | emptyObject {w : Text} (gap : w.Gap) :
      Spelled (.object []) (.scalar '\x7b' :: w ++ [.scalar '\x7d'])
  | object {ms : List (Text × Json)} {s : Text} (members : MembersSpelled ms s) :
      Spelled (.object ms) (.scalar '\x7b' :: s ++ [.scalar '\x7d'])

/-- A value between white space. -/
inductive Padded : Json → Text → Prop
  | mk {j : Json} {w s w' : Text} (before : w.Gap) (value : Spelled j s) (after : w'.Gap) :
      Padded j (w ++ (s ++ w'))

/-- One item or more, with commas between them. -/
inductive ItemsSpelled : List Json → Text → Prop
  | one {j : Json} {s : Text} (item : Padded j s) : ItemsSpelled [j] s
  | cons {j : Json} {js : List Json} {s t : Text} (head : Padded j s)
      (tail : ItemsSpelled js t) : ItemsSpelled (j :: js) (s ++ .scalar ',' :: t)

/-- A name, a colon and a value. -/
inductive MemberSpelled : Text × Json → Text → Prop
  | mk {k n w w' s : Text} {j : Json} (before : w.Gap) (name : k.Quoted n) (after : w'.Gap)
      (value : Padded j s) : MemberSpelled (k, j) (w ++ (n ++ (w' ++ .scalar ':' :: s)))

/-- One member or more, with commas between them. -/
inductive MembersSpelled : List (Text × Json) → Text → Prop
  | one {m : Text × Json} {s : Text} (member : MemberSpelled m s) : MembersSpelled [m] s
  | cons {m : Text × Json} {ms : List (Text × Json)} {s t : Text} (head : MemberSpelled m s)
      (tail : MembersSpelled ms t) : MembersSpelled (m :: ms) (s ++ .scalar ',' :: t)

end

end Json

/-- The text is a JSON text that denotes the value: it spells the value between white space. -/
def Text.Denotes (t : Text) (j : Json) : Prop := j.Padded t

end Clausal
