import Clausal.Peg.Matching
import Clausal.Text.Position

/-!
# Parsers

A parser for a grammar is provided by the host. All that is known of it is that it answers what the
grammar does, with as much room for nested calls as the host grants, and that it counts lines and
columns by a table of the line ends.
-/

namespace Clausal

/-- The offsets of the line feeds of a text, in order. -/
def Text.lineEnds (t : Text) : List Nat :=
  (t.zipIdx.filter fun p => p.1 = .scalar '\n').map Prod.snd

/-- The position of an offset, by a table of the line ends. -/
def Position.ofOffset (lineEnds : List Nat) (offset : Nat) : Position :=
  let before := lineEnds.takeWhile (· < offset)
  match before.getLast? with
  | some lineEnd => ⟨before.length + 1, offset - lineEnd⟩
  | none => ⟨1, offset + 1⟩

namespace Peg

variable {κ ν : Type}

/-- A parser for a grammar. What it answers is what matching answers, given some room for nested
calls, and it answers at least where `room` calls are enough. -/
structure Engine (g : Grammar κ ν) where
  parse : Text → Option (Answer κ ν)
  lineColumn : Text → Nat → Position
  room : Nat
  sound : ∀ {t : Text} {a : Answer κ ν}, parse t = some a → ∃ n, g.answer? n t = some a
  ready : ∀ {t : Text} {a : Answer κ ν}, g.answer? room t = some a → parse t = some a
  ample : 200 ≤ room
  lineColumn_eq : ∀ t offset, lineColumn t offset = .ofOffset t.lineEnds offset

/-- The parser that matches texts against the grammar as it stands. -/
def Engine.matcher (g : Grammar κ ν) (room : Nat) (ample : 200 ≤ room) : Engine g where
  parse := g.answer? room
  lineColumn t := .ofOffset t.lineEnds
  room
  sound h := ⟨room, h⟩
  ready h := h
  ample
  lineColumn_eq _ _ := rfl

end Peg

end Clausal
