import Clausal.Text.CodePoint

/-!
# Positions in a text

A position counts lines and columns from one, and columns in code points. Only a line feed ends a
line.
-/

namespace Clausal

/-- A place in a text: line and column, both counted from one. -/
structure Position where
  line : Nat
  column : Nat
deriving DecidableEq

namespace Position

/-- The first place of a text. -/
def start : Position := ⟨1, 1⟩

/-- The place after a code point that stands here. -/
def next (p : Position) (c : CodePoint) : Position :=
  if c = .scalar '\n' then ⟨p.line + 1, 1⟩ else ⟨p.line, p.column + 1⟩

end Position

end Clausal
