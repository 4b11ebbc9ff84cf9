import Clausal.Json.Visitor

/-!
# Syntax trees

A syntax tree holds the values of a text as they are spelled: repeated members are all there, and
numbers are literals. Resolving a tree gives the located value, unless a member is repeated or an
integer is too long; the parts of a value are resolved before the value itself.
-/

namespace Clausal

/-- The values of a text as they are spelled. -/
inductive Tree where
  | null (start : Position)
  | bool (start : Position) (b : Bool)
  | number (start : Position) (l : NumberLiteral)
  | string (start : Position) (t : Text)
  | array (start : Position) (items : List Tree)
  | object (start : Position) (members : List (Key × Tree))

namespace Tree

instance : Inhabited Tree := ⟨null .start⟩

mutual

/-- The value of a tree. -/
def resolve : Tree → Outcome Located
  | null s => .ok (.null s)
  | bool s b => .ok (.bool s b)
  | number s l => Located.ofNumber s l
  | string s t => .ok (.string s t)
  | array s items => do
    let items ← resolveItems [] items
    return .array s items
  | object s members => do
    let members ← resolveMembers [] members
    let members ← Located.distinctMembers [] members
    return .object s members

/-- The values of items, after those of the items before, in reverse. -/
def resolveItems (before : List Located) : List Tree → Outcome (List Located)
  | [] => .ok before.reverse
  | t :: ts => do
    let v ← resolve t
    resolveItems (v :: before) ts

/-- The values of members, after those of the members before, in reverse. -/
def resolveMembers (before : List (Key × Located)) :
    List (Key × Tree) → Outcome (List (Key × Located))
  | [] => .ok before.reverse
  | (k, t) :: ms => do
    let v ← resolve t
    resolveMembers ((k, v) :: before) ms

end

end Tree

end Clausal
