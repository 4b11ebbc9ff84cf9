import Clausal.Node.Contract

/-!
# Compiled predicates

A compiled predicate owns its contracts and, optionally, declares constants. Contracts refer to one
another by name only, so names are unique within each of the two lists.
-/

namespace Clausal

/-- A declared constant. -/
structure Constant where
  kind : VarKind
  name : Bytes
deriving DecidableEq

/-- A compiled predicate: its clauses and where evaluation starts. -/
structure Predicate where
  name : Bytes
  inputDefs : List Bytes
  contracts : List Contract
  constants : Option (List Constant) := none
  entryPoint : Bytes
deriving DecidableEq

/-- Refuses the first name that stands earlier in the list; `seen` holds the names before. -/
def distinctNames (seen : List Bytes) : List Bytes → Outcome Unit
  | [] => .ok ()
  | n :: ns =>
    if seen.contains n then
      inItem seen.length (inField "name" (refuse (.duplicateName n)))
    else distinctNames (seen ++ [n]) ns

namespace Predicate

/-- The predicate itself, provided that names are unique and the entry point is not empty. -/
def checked (p : Predicate) : Outcome Predicate := do
  inField "contracts" (distinctNames [] (p.contracts.map Contract.name))
  inField "constants" (distinctNames [] ((p.constants.getD []).map Constant.name))
  if p.entryPoint.isEmpty then inField "entryPoint" (refuse .emptyEntryPoint)
  return p

/-- The contract with a name. -/
def contract? (p : Predicate) (name : Bytes) : Option Contract :=
  p.contracts.find? fun c => c.name == name

end Predicate

end Clausal
