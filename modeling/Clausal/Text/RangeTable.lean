/-!
# Tables of code point ranges
-/

namespace Clausal

/-- A set of code points as ranges, ends included, in ascending order. -/
abbrev RangeTable := List (Nat × Nat)

/-- Whether the number lies in one of the ranges. -/
def RangeTable.contains (t : RangeTable) (n : Nat) : Bool := t.any fun r => r.1 ≤ n && n ≤ r.2

end Clausal
