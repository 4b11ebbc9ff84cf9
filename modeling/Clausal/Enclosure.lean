import Clausal.Node.Predicate

/-!
# Enclosure

A contract encloses the contracts that its bodies name, as placeholders or as the sources of calls.
A quantifier's variable is visible in its own body and in every contract that the body encloses,
directly or through others. Clauses may name one another in circles, so the variables that each
contract inherits are computed in passes over all contracts, until a pass changes nothing.
-/

namespace Clausal

/-- Variables by the name of the contract that sees them. -/
abbrev Scopes := List (Bytes × List Bytes)

namespace Scopes

/-- The variables that a contract sees; none if it is not listed. -/
def get (s : Scopes) (name : Bytes) : List Bytes := (s.lookup name).getD []

/-- Adds the variables `ws` to a list of distinct variables. -/
def union (vs ws : List Bytes) : List Bytes := vs ++ ws.filter fun w => !vs.contains w

/-- Adds variables to what a contract sees. -/
def extend (s : Scopes) (name : Bytes) (ws : List Bytes) : Scopes :=
  s.map fun (n, vs) => if n == name then (n, union vs ws) else (n, vs)

end Scopes

/-- A contract as a place that hands variables on: its name, the variable it binds, and the names
of the contracts it encloses. -/
structure Link where
  source : Bytes
  binder : Option Bytes
  targets : List Bytes
deriving DecidableEq

namespace Link

/-- Hands on what the source sees and binds. What it sees is read once, before anything changes. -/
def visit (s : Scopes) (l : Link) : Scopes :=
  let exported := Scopes.union (s.get l.source) l.binder.toList
  l.targets.foldl (fun s t => s.extend t exported) s

/-- Visits all links in turn. -/
def pass (links : List Link) (s : Scopes) : Scopes := links.foldl visit s

/-- Makes passes until one changes nothing, `bound` passes at most. -/
def settle (links : List Link) : Nat → Scopes → Scopes
  | 0, s => s
  | bound + 1, s =>
    let s' := pass links s
    if s' = s then s else settle links bound s'

end Link

namespace Predicate

/-- The contracts that a contract of the predicate encloses, each once. -/
def enclosed (p : Predicate) (c : Contract) : List Bytes :=
  let references := c.bodies.filterMap fun (_, e) => e.reference?
  (references.filter fun r => (p.contracts.map Contract.name).contains r).eraseDups

/-- The links of a predicate, in the order of its contracts. -/
def links (p : Predicate) : List Link :=
  p.contracts.map fun c => ⟨c.name, c.boundVariable?, p.enclosed c⟩

/-- No contract sees any variable. -/
def noScopes (p : Predicate) : Scopes := p.contracts.map fun c => (c.name, [])

/-- The variables that each contract inherits from the quantifiers that enclose it. A variable
travels along a shortest way, so one pass more than there are contracts is enough. -/
def inheritedScopes (p : Predicate) : Scopes :=
  Link.settle p.links (p.contracts.length + 1) p.noScopes

end Predicate

end Clausal
