import Clausal.Fault.Outcome
import Clausal.Json.Basic
import Clausal.Json.Grammar

/-!
# From parse trees to values

A parse tree is visited from its leaves up. Strings, numbers and words give values, marks their
texts; members, arrays and objects are made of what their parts gave, marks apart. A value starts
where its node does. Members that repeat a name and integers that are too long are refused.
-/

namespace Clausal

open Peg (ParseNode)

/-- A name of a member with the position at which it starts. -/
abbrev Key := Position × Text

/-- What a visited node gives: a value, a member of an object or the text of a mark. -/
inductive Visited where
  | value (l : Located)
  | member (key : Key) (l : Located)
  | mark (t : Text)

/-- Refuses at a position of the text. -/
def refuseAt {α : Type} (position : Position) (cause : Cause) (path : Path := []) : Outcome α :=
  .error (.fault ⟨cause, path, some position⟩)

/-- A node lacks a part that every node of its rule has. -/
def lacksPart {α : Type} : Outcome α := .error (.misuse .missingPart)

namespace Located

/-- The value of a number that starts at a position. -/
def ofNumber (start : Position) (l : NumberLiteral) : Outcome Located :=
  if l.isInteger then
    if l.whole.length ≤ maxIntegerDigits then .ok (.int start l.toInt)
    else refuseAt start (.integerTooLong l.wholeLength)
  else .ok (.float start l.toDouble)

/-- Refuses the first member that repeats a name; `before` holds the members before, in reverse. -/
def distinctMembers (before : List (Text × Located)) :
    List (Key × Located) → Outcome (List (Text × Located))
  | [] => .ok before.reverse
  | ((start, k), v) :: rest =>
    if before.any fun m => m.1 == k then refuseAt start (.duplicateField k) [.field k]
    else distinctMembers ((k, v) :: before) rest

end Located

namespace Visited

/-- The value, if it is one. -/
def value? : Visited → Option Located
  | value l => some l
  | _ => none

/-- The member, if it is one. -/
def member? : Visited → Option (Key × Located)
  | member key l => some (key, l)
  | _ => none

/-- The values and members among what nodes gave. -/
def flatten (vs : List Visited) : List Visited :=
  vs.filter fun
    | mark _ => false
    | _ => true

/-- What a terminal gives that starts at a position. -/
def ofTerminal (start : Position) (t : Text) : TokenKind → Outcome Visited
  | .string =>
    match Token.read? .string t with
    | some (.string s, _) => .ok (value (.string start s))
    | _ => lacksPart
  | .number =>
    match NumberLiteral.read? t with
    | some l => value <$> Located.ofNumber start l
    | none => lacksPart
  | .true => .ok (value (.bool start true))
  | .false => .ok (value (.bool start false))
  | .null => .ok (value (.null start))
  | _ => .ok (mark t)

/-- What a node of a rule gives that starts at a position and whose parts gave `parts`. -/
def ofRule (start : Position) (parts : List Visited) : Rule → Outcome Visited
  | .member =>
    match (flatten parts).filterMap value? with
    | .string start k :: l :: _ => .ok (member (start, k) l)
    | _ => lacksPart
  | .object => do
    let members ← Located.distinctMembers [] ((flatten parts).filterMap member?)
    return value (.object start members)
  | .array => .ok (value (.array start ((flatten parts).filterMap value?)))
  | .value | .document =>
    match flatten parts with
    | v :: _ => .ok v
    | [] => lacksPart

mutual

/-- What a node gives, with the position of each offset. -/
def ofNode (place : Nat → Position) : ParseNode TokenKind Rule → Outcome Visited
  | .terminal k offset t => ofTerminal (place offset) t k
  | .rule r children => do
    let parts ← ofNodes place children
    ofRule (place (ParseNode.rule r children).offset) parts r

/-- What nodes give, in their order. -/
def ofNodes (place : Nat → Position) : List (ParseNode TokenKind Rule) → Outcome (List Visited)
  | [] => .ok []
  | n :: ns => do
    let v ← ofNode place n
    let vs ← ofNodes place ns
    return v :: vs

end

end Visited

end Clausal
