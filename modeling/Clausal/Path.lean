import Clausal.Text.CodePoint

/-!
# Field paths

A path leads from a value to one of its parts by field names and places in lists. It is written the
way the authoring form would address the part, as in `contracts[0].inputs[2].name`.
-/

namespace Clausal

/-- Whether a character ends the name of a field in a path. -/
def CodePoint.endsName (c : CodePoint) : Bool := c == .scalar '.' || c == .scalar '['

/-- One step of a path. -/
inductive Step where
  | field (name : Text)
  | item (index : Nat)
deriving DecidableEq

/-- A path, outermost step first. -/
abbrev Path := List Step

/-- Writes `name` below `base`; a name that opens a bracket is joined without a point. -/
def joinPath (base name : Text) : Text :=
  if base.isEmpty || name.head? == some (.scalar '[') then base ++ name
  else base ++ ("." : Text) ++ name

/-- Writes one step below `base`. -/
def Step.render (base : Text) : Step → Text
  | field name => joinPath base name
  | item i => base ++ ("[" : Text) ++ Text.ofNat i ++ ("]" : Text)

/-- Writes a path below `base`. -/
def Path.render (base : Text) (p : Path) : Text := p.foldl Step.render base

end Clausal
