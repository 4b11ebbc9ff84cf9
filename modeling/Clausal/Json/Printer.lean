import Clausal.Binary64.Shortest
import Clausal.Fault.Outcome
import Clausal.Json.Basic

/-!
# Writing JSON texts

Values are written in one line or with every item on a line of its own. Strings escape the
quotation mark, the backslash and the controls; the canonical form escapes everything beyond
printable ASCII, puts the members of objects in the order of their names and leaves out all blanks.
-/

namespace Clausal

/-- How a value is laid out: what stands between items and after names, whether characters beyond
printable ASCII are escaped, and by how many blanks deeper levels are indented, if items stand on
lines of their own. -/
structure JsonLayout where
  itemSeparator : Text
  nameSeparator : Text
  asciiOnly : Bool := false
  indent : Option Nat := none

namespace JsonLayout

/-- Everything on one line. -/
def oneLine : JsonLayout := { itemSeparator := ", ", nameSeparator := ": " }

/-- Every item on a line of its own; a negative indentation is none. -/
def lines (indent : Int) : JsonLayout :=
  { itemSeparator := ",", nameSeparator := ": ", indent := some indent.toNat }

/-- Nothing but what is needed, in ASCII. -/
def canonical : JsonLayout := { itemSeparator := ",", nameSeparator := ":", asciiOnly := true }

/-- What stands between items and brackets at a level. -/
def lineBreak (l : JsonLayout) (level : Nat) : Text :=
  match l.indent with
  | none => []
  | some n => .scalar '\n' :: List.replicate (n * level) (.scalar ' ')

end JsonLayout

namespace Json

/-- An escape by number. -/
def unitEscape (n : Nat) : Text := Text.ofChars ('\\' :: 'u' :: hexDigits 4 n)

/-- The 16-bit units of a code point beyond ASCII, each as an escape. -/
def unitEscapes (n : Nat) : Text :=
  if n < 0x10000 then unitEscape n
  else unitEscape (0xd800 + (n - 0x10000) / 0x400) ++ unitEscape (0xdc00 + (n - 0x10000) % 0x400)

/-- A code point inside a string. -/
def renderPoint (asciiOnly : Bool) (c : CodePoint) : Text :=
  if c = .scalar '\x22' then "\\\""
  else if c = .scalar '\\' then "\\\\"
  else if c = .scalar '\n' then "\\n"
  else if c = .scalar '\r' then "\\r"
  else if c = .scalar '\t' then "\\t"
  else if c = .scalar '\x08' then "\\b"
  else if c = .scalar '\x0c' then "\\f"
  else if c.toNat < 0x20 || (asciiOnly && 0x7e < c.toNat) then unitEscapes c.toNat
  else [c]

/-- A string. -/
def renderString (asciiOnly : Bool) (t : Text) : Text :=
  .scalar '\x22' :: t.flatMap (renderPoint asciiOnly) ++ [.scalar '\x22']

/-- Items between brackets, an empty list without a line break. -/
def renderItems (l : JsonLayout) (level : Nat) (first last : Char) (items : List Text) : Text :=
  if items.isEmpty then [.scalar first, .scalar last]
  else
    let separator := l.itemSeparator ++ l.lineBreak (level + 1)
    .scalar first :: (l.lineBreak (level + 1) ++ List.intercalate separator items ++
      l.lineBreak level ++ [.scalar last])

/-- A fraction: its shortest decimal, or the word for a double that has none. -/
def renderFloat (bits : UInt64) : Text :=
  Text.ofString (Binary64.toTextWith ⟨"Infinity", "NaN"⟩ bits)

/-- A value at a level of nesting. -/
def render (l : JsonLayout) (level : Nat) : Json → Text
  | null => "null"
  | bool b => if b then "true" else "false"
  | int n => Text.ofInt n
  | float bits => renderFloat bits
  | string t => renderString l.asciiOnly t
  | array items =>
    renderItems l level '[' ']' (items.map (render l (level + 1)))
  | object members =>
    renderItems l level '\x7b' '\x7d' (members.map fun m =>
      renderString l.asciiOnly m.1 ++ l.nameSeparator ++ render l (level + 1) m.2)
termination_by j => sizeOf j
decreasing_by
  · have := List.sizeOf_lt_of_mem ‹_ ∈ items›
    simp only [array.sizeOf_spec]
    omega
  · rename_i h
    have := List.sizeOf_lt_of_mem h
    obtain ⟨k, v⟩ := m
    simp only [object.sizeOf_spec, Prod.mk.sizeOf_spec] at this ⊢
    omega

/-- The value with the members of all objects in the order of their names. -/
def sortMembers : Json → Json
  | array items => .array (items.map sortMembers)
  | object members =>
    .object ((members.map fun m => (m.1, sortMembers m.2)).mergeSort fun m n => !Text.lt n.1 m.1)
  | j => j
termination_by j => sizeOf j
decreasing_by
  · have := List.sizeOf_lt_of_mem ‹_ ∈ items›
    simp only [array.sizeOf_spec]
    omega
  · rename_i h
    have := List.sizeOf_lt_of_mem h
    obtain ⟨k, v⟩ := m
    simp only [object.sizeOf_spec, Prod.mk.sizeOf_spec] at this ⊢
    omega

/-- Whether a scalar inside the value satisfies a test, at any depth. -/
def any (test : Json → Bool) : Json → Bool
  | array items => (items.map (any test)).any id
  | object members => (members.map fun m => any test m.2).any id
  | j => test j
termination_by j => sizeOf j
decreasing_by
  · have := List.sizeOf_lt_of_mem ‹_ ∈ items›
    simp only [array.sizeOf_spec]
    omega
  · rename_i h
    have := List.sizeOf_lt_of_mem h
    obtain ⟨k, v⟩ := m
    simp only [object.sizeOf_spec, Prod.mk.sizeOf_spec] at this ⊢
    omega

/-- Whether the value is a fraction. -/
def isFraction : Json → Bool
  | float _ => true
  | _ => false

/-- Whether the value is an integer too long to be written. -/
def isLongInteger : Json → Bool
  | int n => integerLimit ≤ n.natAbs
  | _ => false

/-- The text of a value that holds no fraction and no integer too long to be shown. -/
def toText (l : JsonLayout) (j : Json) : Outcome Text :=
  if j.any isFraction then .error (.misuse .fraction)
  else if j.any isLongInteger then .error (.misuse .integerTooLong)
  else .ok (j.render l 0)

/-- The canonical text of a value. Values that differ in the order of members only have the same. -/
def canonicalText (j : Json) : Outcome Text := j.sortMembers.toText .canonical

end Json

end Clausal
