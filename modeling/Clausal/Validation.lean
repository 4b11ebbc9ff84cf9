import Clausal.Enclosure
import Clausal.Node

/-!
# Validation

Nodes vouch for themselves; validation checks what depends on their surroundings. A reference to a
parameter has to stay within the parameters of its contract, a property input within those of the
predicate, and a variable has to be bound by an enclosing quantifier. Names that lead nowhere are
legal: they belong to the surroundings of the predicate. The first fault counts.
-/

namespace Clausal

/-- Checks a reference to a parameter against the number of parameters. -/
def NormalInput.validate (arity : Nat) (i : NormalInput) : Outcome Unit :=
  if i.index.toNat < arity then .ok ()
  else inField "inputIndex" (refuse (.indexOutOfRange i.index.toNat arity))

/-- Checks that a variable is visible. -/
def checkVisible (scope : List Bytes) (name : Bytes) : Outcome Unit :=
  if scope.contains name then .ok () else refuse (.unboundVariable name)

/-- Checks the address of an input. -/
def Input.validate (arity : Nat) (scope : List Bytes) : Input → Outcome Unit
  | normal i => i.validate arity
  | var name _ => inField "placeholder" (checkVisible scope name)
  | constant _ | label _ | self _ => .ok ()

/-- Checks the target of a call. -/
def Call.validate (arity : Nat) : Call → Outcome Unit
  | input source => inField "source" (source.validate arity)
  | atomic _ | compiled _ | var => .ok ()

/-- Checks the addresses of a proposition, the call's before the inputs'. -/
def Proposition.validate (arity : Nat) (scope : List Bytes) (p : Proposition) : Outcome Unit := do
  inField "predicate" (p.call.validate arity)
  let _ ← inField "inputs" (forItems (Input.validate arity scope) p.inputs)

/-- Checks a clause body. -/
def Entry.validate (arity : Nat) (scope : List Bytes) : Entry → Outcome Unit
  | proposition p => p.validate arity scope
  | placeholder _ => .ok ()

namespace Contract

/-- What the bodies of a contract see, given what it inherits. -/
def bodyScope (c : Contract) (inherited : List Bytes) : List Bytes :=
  Scopes.union inherited c.boundVariable?.toList

/-- Checks the bodies of a contract and then, against the parameters of its owner if they are given,
its property inputs. Answers what the bodies see. -/
def validate (c : Contract) (inherited : List Bytes) (ownerDefs : Option (List Bytes)) :
    Outcome (List Bytes) := do
  let scope := c.bodyScope inherited
  inField "inputs" (c.bodies.forM fun (i, e) =>
    inItem i (e.validate c.inputDefs.length scope))
  match ownerDefs with
  | none => pure ()
  | some defs =>
    let _ ← inField "propertyInputs"
      (forItems (NormalInput.validate defs.length) c.propertyInputs)
  return scope

end Contract

/-- What a validated predicate binds: the variables that the bodies of each contract see, and the
variable that each quantifier binds. -/
structure Bindings where
  scopes : Scopes
  binders : List (Bytes × Bytes)

namespace Predicate

/-- The variables that quantifiers bind, by the names of their contracts. -/
def binders (p : Predicate) : List (Bytes × Bytes) :=
  p.contracts.filterMap fun c => c.boundVariable?.map fun v => (c.name, v)

/-- Checks every address of a predicate. -/
def validate (p : Predicate) : Outcome Bindings := do
  let inherited := p.inheritedScopes
  let scopes ← inField "contracts" (forItems (fun c => do
    let scope ← c.validate (inherited.get c.name) (some p.inputDefs)
    return (c.name, scope)) p.contracts)
  return { scopes, binders := p.binders }

end Predicate

/-- The parameters of a node that has some. -/
def Node.inputDefs? : Node → Option (List Bytes)
  | contract c => some c.inputDefs
  | predicate p => some p.inputDefs
  | _ => none

end Clausal
