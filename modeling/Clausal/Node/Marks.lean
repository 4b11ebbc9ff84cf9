import Clausal.Path
import Clausal.Symbol

/-!
# Marks

Symbols are numbers, so a symbol may be given where a node holds a number. The node holds the number
alone, and what is computed from the node depends on nothing else; a mark keeps the symbol, so that
the node can be shown the way it was given. Marks are found by the path that leads to the number,
and the marks of a part are those of the whole with the way to the part left out.
-/

namespace Clausal

/-- The symbols that were given for numbers of a value, each with the path to its number. -/
abbrev Marks := List (Path × Symbol)

namespace Marks

/-- The symbol that was given for the number at a path. -/
def symbol? (ms : Marks) (p : Path) : Option Symbol := ms.lookup p

/-- The marks of a part as the whole has them, which holds the part one step below. -/
def under (s : Step) (ms : Marks) : Marks := ms.map fun (p, symbol) => (s :: p, symbol)

/-- The marks of items as their list has them. -/
def ofItems (items : List Marks) : Marks :=
  (items.zipIdx.map fun (ms, i) => under (.item i) ms).flatten

/-- The marks of the part one step below. -/
def below (s : Step) (ms : Marks) : Marks :=
  ms.filterMap fun
    | (t :: p, symbol) => if t = s then some (p, symbol) else none
    | ([], _) => none

/-- The marks of a field. -/
def field (ms : Marks) (name : String) : Marks := ms.below (.field (Text.ofString name))

/-- The marks of an item. -/
def item (ms : Marks) (i : Nat) : Marks := ms.below (.item i)

@[simp]
theorem symbol?_under (s : Step) (p : Path) (ms : Marks) :
    (ms.under s).symbol? (s :: p) = ms.symbol? p := by
  induction ms with
  | nil => rfl
  | cons m ms ih =>
    obtain ⟨q, symbol⟩ := m
    simp only [symbol?, under, List.map_cons, List.lookup_cons] at ih ⊢
    by_cases h : p = q <;> simp [h, ih]

@[simp]
theorem below_under (s : Step) (ms : Marks) : (ms.under s).below s = ms := by
  induction ms with
  | nil => rfl
  | cons m ms ih =>
    simp only [under, below, List.map_cons, List.filterMap_cons] at ih ⊢
    simp [ih]

end Marks

end Clausal
