import Clausal.Authoring.Document

/-!
# Positions by paths

Lowering a document keeps a table of the positions of the values that it comes to, under their
written paths. The latest entry for a path counts. A fault without a position gets that of the
nearest value in the table, on the way up from the path of the fault.
-/

namespace Clausal

/-- What is written for the steps above a path: the text before its last point or bracket. -/
def parentPath (path : Text) : Text :=
  ((path.reverse.dropWhile fun c => !c.endsName).drop 1).reverse

theorem length_parentPath (path : Text) : (parentPath path).length ≤ path.length - 1 := by
  have h := (List.dropWhile_sublist (l := path.reverse) fun c => !c.endsName).length_le
  rw [List.length_reverse] at h
  rw [parentPath, List.length_reverse, List.length_drop]
  omega

/-- A written path and those above it, up to the empty one. -/
def parentPaths (path : Text) : List Text :=
  match path with
  | [] => [[]]
  | c :: cs => (c :: cs) :: parentPaths (parentPath (c :: cs))
termination_by path.length
decreasing_by exact Nat.lt_succ_of_le (length_parentPath (c :: cs))

/-- Positions by written paths, the latest first. -/
abbrev Positions := List (Text × Position)

namespace Positions

/-- Records where the value at a path starts, if that is known. -/
def record (known : Positions) (path : Path) (d : Document) : Positions :=
  match d.start? with
  | some start => (path.render [], start) :: known
  | none => known

/-- The position of the nearest value on the way up from a written path. -/
def nearest? (known : Positions) (path : Text) : Option Position :=
  (parentPaths path).findSome? fun p => known.lookup p

/-- Gives a fault the position of the nearest value, unless it has one. -/
def placeFailure (known : Positions) : Failure → Failure
  | .fault f =>
    .fault { f with position := f.position.orElse fun _ => known.nearest? (f.path.render []) }
  | .misuse m => .misuse m

/-- Gives faults their positions. -/
def place {α : Type} (known : Positions) (x : Outcome α) : Outcome α :=
  x.mapError known.placeFailure

end Positions

end Clausal
