import Clausal.Binary64.Nearest
import Clausal.Json.TokenKind
import Clausal.Text.Alphanumeric
import Clausal.Text.CodePoint

/-!
# Tokens

The spellings of punctuation, strings, numbers and the three words. A token is read at the front of
a text and is as long as it can be. Escapes in strings are resolved, and two escapes that form a
surrogate pair stand for one character; any other surrogate stands for itself.
-/

namespace Clausal

/-- A decimal digit. -/
abbrev Digit := Fin 10

theorem Digit.sub_lt {n : Nat} (h : 48 ≤ n ∧ n ≤ 57) : n - 48 < 10 := by
  omega

/-- The digit that a code point is. -/
def Digit.ofCodePoint? : CodePoint → Option Digit
  | .scalar c =>
    if h : 48 ≤ c.toNat ∧ c.toNat ≤ 57 then some ⟨c.toNat - 48, sub_lt h⟩
    else none
  | .surrogate _ => none

/-- The number that digits spell. -/
def Digit.value (ds : List Digit) : Nat := ds.foldl (fun n d => n * 10 + d.val) 0

/-- The digits at the front of a text. -/
def Digit.span (t : Text) : List Digit × Text :=
  let isDigit (c : CodePoint) : Bool := (Digit.ofCodePoint? c).isSome
  ((t.takeWhile isDigit).filterMap Digit.ofCodePoint?, t.dropWhile isDigit)

/-- The exponent of a number as it is spelled. -/
structure ExponentPart where
  upperCase : Bool
  sign : Option Bool
  digits : List Digit
deriving DecidableEq

/-- A number as it is spelled. -/
structure NumberLiteral where
  negative : Bool
  whole : List Digit
  fraction : Option (List Digit)
  exponent : Option ExponentPart
deriving DecidableEq

namespace ExponentPart

/-- The number of code points of the exponent. -/
def length (e : ExponentPart) : Nat := 1 + (if e.sign.isSome then 1 else 0) + e.digits.length

/-- The power of ten that the exponent stands for. -/
def value (e : ExponentPart) : Int :=
  if e.sign = some true then -(Digit.value e.digits : Int) else Digit.value e.digits

/-- The sign at the front of a text, `true` for a minus, and what follows it. -/
def readSign : Text → Option Bool × Text
  | .scalar '-' :: rest => (some true, rest)
  | .scalar '+' :: rest => (some false, rest)
  | t => (none, t)

/-- The exponent at the front of a text, after its letter. -/
def readAfterLetter (upperCase : Bool) (t : Text) : Option ExponentPart :=
  let (sign, rest) := readSign t
  match (Digit.span rest).1 with
  | [] => none
  | d :: ds => some ⟨upperCase, sign, d :: ds⟩

/-- The exponent at the front of a text, if there is one. -/
def read? : Text → Option ExponentPart
  | .scalar 'e' :: rest => readAfterLetter false rest
  | .scalar 'E' :: rest => readAfterLetter true rest
  | _ => none

end ExponentPart

namespace NumberLiteral

/-- Whether the number is an integer by its spelling. -/
def isInteger (l : NumberLiteral) : Bool := l.fraction.isNone && l.exponent.isNone

/-- The number of code points of the sign and the digits before the point. -/
def wholeLength (l : NumberLiteral) : Nat := (if l.negative then 1 else 0) + l.whole.length

/-- The number of code points of the number. -/
def length (l : NumberLiteral) : Nat :=
  l.wholeLength + (l.fraction.elim 0 (·.length + 1)) + (l.exponent.elim 0 ExponentPart.length)

/-- The integer that sign and digits before the point spell. -/
def toInt (l : NumberLiteral) : Int :=
  if l.negative then -(Digit.value l.whole : Int) else Digit.value l.whole

/-- The bits of the double nearest to the number. -/
def toDouble (l : NumberLiteral) : UInt64 :=
  let places := l.fraction.getD []
  Binary64.ofDecimal l.negative (Digit.value (l.whole ++ places))
    (l.exponent.elim 0 ExponentPart.value - places.length)

/-- The digits before the point: a zero alone, or digits that do not start with one. -/
def readWhole (t : Text) : List Digit × Text :=
  match t with
  | .scalar '0' :: rest => ([0], rest)
  | t => Digit.span t

/-- The digits after the point at the front of a text, if there are any. -/
def readFraction (t : Text) : Option (List Digit) × Text :=
  match t with
  | .scalar '.' :: rest =>
    match Digit.span rest with
    | ([], _) => (none, t)
    | (d :: ds, rest) => (some (d :: ds), rest)
  | t => (none, t)

/-- The unsigned number at the front of a text. -/
def readUnsigned (negative : Bool) (t : Text) : Option NumberLiteral :=
  match readWhole t with
  | ([], _) => none
  | (d :: ds, rest) =>
    let (fraction, rest) := readFraction rest
    some ⟨negative, d :: ds, fraction, ExponentPart.read? rest⟩

/-- The number at the front of a text. -/
def read? : Text → Option NumberLiteral
  | .scalar '-' :: rest => readUnsigned true rest
  | t => readUnsigned false t

end NumberLiteral

/-- A part of a string as it is spelled: a code point, or a 16-bit unit by its number. -/
inductive StringPart where
  | point (c : CodePoint)
  | unit (u : UInt16)
deriving DecidableEq

namespace StringPart

/-- The value of a hexadecimal digit. -/
def hexValue? : CodePoint → Option Nat
  | .scalar c =>
    if '0' ≤ c ∧ c ≤ '9' then some (c.toNat - 48)
    else if 'a' ≤ c ∧ c ≤ 'f' then some (c.toNat - 87)
    else if 'A' ≤ c ∧ c ≤ 'F' then some (c.toNat - 55)
    else none
  | .surrogate _ => none

/-- The unit with the given hexadecimal digits. -/
def ofHex? (a b c d : CodePoint) : Option StringPart := do
  let a ← hexValue? a
  let b ← hexValue? b
  let c ← hexValue? c
  let d ← hexValue? d
  return unit (UInt16.ofNat (((a * 16 + b) * 16 + c) * 16 + d))

/-- The character that a letter stands for after a backslash. -/
def escape? : CodePoint → Option Char
  | .scalar '\x22' => some '\x22'
  | .scalar '\\' => some '\\'
  | .scalar '/' => some '/'
  | .scalar 'b' => some '\x08'
  | .scalar 'f' => some '\x0c'
  | .scalar 'n' => some '\n'
  | .scalar 'r' => some '\r'
  | .scalar 't' => some '\t'
  | _ => none

/-- Whether a code point may stand in a string without an escape, quotes and backslashes apart. -/
def isPlain (c : CodePoint) : Bool := 0x20 ≤ c.toNat

/-- Reads a string after its opening quote, up to the closing one. Takes the parts before, in
reverse, and the number of code points read; answers all parts and the number of code points up to
the closing quote. -/
def read? (before : List StringPart) (count : Nat) : Text → Option (List StringPart × Nat)
  | .scalar '\x22' :: _ => some (before.reverse, count + 1)
  | .scalar '\\' :: .scalar 'u' :: a :: b :: c :: d :: rest =>
    match ofHex? a b c d with
    | some p => read? (p :: before) (count + 6) rest
    | none => none
  | .scalar '\\' :: c :: rest =>
    match escape? c with
    | some c => read? (point (.scalar c) :: before) (count + 2) rest
    | none => none
  | c :: rest => if isPlain c then read? (point c :: before) (count + 1) rest else none
  | [] => none

/-- The character of a surrogate pair, if the two units form one. -/
def ofPair? (u v : UInt16) : Option Char :=
  if 0xd800 ≤ u ∧ u < 0xdc00 ∧ 0xdc00 ≤ v ∧ v < 0xe000 then
    some (Char.ofNat (0x10000 + (u.toNat - 0xd800) * 0x400 + (v.toNat - 0xdc00)))
  else none

/-- The text that parts denote, after what was gathered before in reverse. -/
def textFrom (before : Text) : List StringPart → Text
  | [] => before.reverse
  | point c :: rest => textFrom (c :: before) rest
  | unit u :: unit v :: rest =>
    match ofPair? u v with
    | some c => textFrom (.scalar c :: before) rest
    | none => textFrom (.ofUnit u :: before) (unit v :: rest)
  | unit u :: rest => textFrom (.ofUnit u :: before) rest

/-- The text that parts denote. -/
def text (ps : List StringPart) : Text := textFrom [] ps

end StringPart

/-- A token of an authoring text. -/
inductive Token where
  | openBrace
  | closeBrace
  | openBracket
  | closeBracket
  | colon
  | comma
  | string (t : Text)
  | number (l : NumberLiteral)
  | true
  | false
  | null

namespace Token

/-- The kind of a token. -/
def kind : Token → TokenKind
  | openBrace => .openBrace
  | closeBrace => .closeBrace
  | openBracket => .openBracket
  | closeBracket => .closeBracket
  | colon => .colon
  | comma => .comma
  | string _ => .string
  | number _ => .number
  | .true => .true
  | .false => .false
  | null => .null

/-- Whether a word can end before a text. -/
def endsWord : Text → Bool
  | .scalar c :: _ => !isWordChar c
  | _ => Bool.true

/-- Whether a text starts with a word. -/
def startsWithWord (word : List Char) (t : Text) : Bool :=
  (Text.ofChars word).isPrefixOf t && endsWord (t.drop word.length)

/-- The word at the front of a text, with the token that it is. -/
def readWord? (word : List Char) (token : Token) (t : Text) : Option (Token × Nat) :=
  if startsWithWord word t then some (token, word.length) else none

/-- The mark at the front of a text, with the token that it is. -/
def readMark? (mark : Char) (token : Token) (t : Text) : Option (Token × Nat) :=
  if t.head? = some (.scalar mark) then some (token, 1) else none

/-- The token of a kind at the front of a text, with the number of its code points. -/
def read? : TokenKind → Text → Option (Token × Nat)
  | .openBrace, t => readMark? '\x7b' openBrace t
  | .closeBrace, t => readMark? '\x7d' closeBrace t
  | .openBracket, t => readMark? '[' openBracket t
  | .closeBracket, t => readMark? ']' closeBracket t
  | .colon, t => readMark? ':' colon t
  | .comma, t => readMark? ',' comma t
  | .string, .scalar '\x22' :: t =>
    (StringPart.read? [] 1 t).map fun (ps, n) => (string (StringPart.text ps), n)
  | .string, _ => none
  | .number, t => (NumberLiteral.read? t).map fun l => (number l, l.length)
  | .true, t => readWord? ['t', 'r', 'u', 'e'] .true t
  | .false, t => readWord? ['f', 'a', 'l', 's', 'e'] .false t
  | .null, t => readWord? ['n', 'u', 'l', 'l'] null t
  | .endOfText, _ => none

end Token

end Clausal
