/-!
# Text as code points

Documents may spell a surrogate that belongs to no pair, so a text is a list of code points rather
than a string. Everything that was a string embeds into it, and a text without surrogates is
exactly such an image.
-/

namespace Clausal

/-- One code point: a Unicode scalar value, or a surrogate that stands alone. -/
inductive CodePoint where
  | scalar (c : Char)
  | surrogate (offset : Fin 2048)
deriving DecidableEq

namespace CodePoint

instance : Inhabited CodePoint := ⟨.scalar ' '⟩

instance : Coe Char CodePoint := ⟨.scalar⟩

/-- The number of the code point. -/
def toNat : CodePoint → Nat
  | scalar c => c.toNat
  | surrogate o => 0xd800 + o.val

/-- The scalar value, unless the code point is a surrogate. -/
def toChar? : CodePoint → Option Char
  | scalar c => some c
  | surrogate _ => none

/-- The code point of a 16-bit unit that is not half of a pair. -/
def ofUnit (u : UInt16) : CodePoint :=
  if h : 0xd800 ≤ u.toNat ∧ u.toNat < 0xe000 then surrogate ⟨u.toNat - 0xd800, by omega⟩
  else scalar (Char.ofNat u.toNat)

/-- The number of bytes the code point takes in UTF-8, a surrogate counted like its neighbours. -/
def utf8Size : CodePoint → Nat
  | scalar c => c.utf8Size
  | surrogate _ => 3

end CodePoint

/-- A text: a list of code points. -/
abbrev Text := List CodePoint

namespace Text

/-- The text of a list of scalar values. -/
def ofChars (cs : List Char) : Text := cs.map .scalar

/-- The text of a string. -/
def ofString (s : String) : Text := ofChars s.toList

instance : Coe String Text := ⟨ofString⟩

/-- The scalar values of a text without surrogates. -/
def toChars? (t : Text) : Option (List Char) := t.mapM CodePoint.toChar?

/-- The decimal spelling of a natural number. -/
def ofNat (n : Nat) : Text := ofString (toString n)

/-- The decimal spelling of an integer, with a minus sign below zero. -/
def ofInt (n : Int) : Text := ofString (toString n)

/-- The number of bytes of the text in UTF-8, surrogates counted at three bytes each. -/
def utf8Size (t : Text) : Nat := t.foldl (fun n c => n + c.utf8Size) 0

/-- Texts are ordered by the numbers of their code points. -/
def lt (s t : Text) : Bool := decide (s.map CodePoint.toNat < t.map CodePoint.toNat)

/-- The texts one after the other, with `separator` between neighbours. -/
def joinWith (separator : Text) : List Text → Text
  | [] => []
  | [t] => t
  | t :: u :: ts => t ++ separator ++ joinWith separator (u :: ts)

theorem toChars?_ofChars (cs : List Char) : toChars? (ofChars cs) = some cs := by
  induction cs with
  | nil => rfl
  | cons c cs ih =>
    simp only [toChars?, ofChars, List.map_cons, List.mapM_cons, CodePoint.toChar?] at ih ⊢
    simp [ih]

theorem ofChars_append (cs ds : List Char) : ofChars (cs ++ ds) = ofChars cs ++ ofChars ds := by
  simp [ofChars]

end Text

end Clausal
