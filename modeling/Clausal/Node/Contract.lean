import Clausal.Node.Input

/-!
# Contracts

A contract is one clause of a compiled predicate. Its inputs are propositions and the names of
other contracts, and its connective fixes their number and their kinds.
-/

namespace Clausal

/-- What a proposition calls: a native predicate by name, the predicate held by a parameter, the
predicate bound in scope, or another compiled predicate by name. -/
inductive Call where
  | atomic (source : Bytes)
  | input (source : NormalInput)
  | var
  | compiled (source : Bytes)
deriving DecidableEq

/-- The tag of a call. -/
def Call.tag : Call → NodeTag
  | atomic _ => .atomicPredicateCall
  | input _ => .inputPredicateCall
  | var => .variablePredicateCall
  | compiled _ => .compiledPredicateCall

/-- A call applied to inputs. -/
structure Proposition where
  call : Call
  inputs : List Input := []
  isCompiled : Option Bool := none
deriving DecidableEq

/-- An input of a contract: a proposition, or the name of a contract, collection or variable. -/
inductive Entry where
  | proposition (p : Proposition)
  | placeholder (name : Bytes)
deriving DecidableEq

/-- The contract that an entry refers to by name, if it refers to one at all. -/
def Entry.reference? : Entry → Option Bytes
  | placeholder name => some name
  | proposition p =>
    match p.call with
    | .atomic source | .compiled source => some source
    | .input _ | .var => none

/-- One clause of a compiled predicate; `origin` is the name of the predicate that it was taken
from. -/
structure Contract where
  name : Bytes
  origin : Bytes
  connective : Connective
  inputDefs : List Bytes
  inputs : List Entry
  propertyInputs : List NormalInput := []
deriving DecidableEq

/-- The inputs of a contract as its connective reads them. -/
inductive Shape where
  | quantifier (collection binder : Bytes) (body : Entry)
  | negation (body : Entry)
  | junction (bodies : List Entry)

/-- Reads inputs as the shape that their connective demands. -/
def Connective.shape (c : Connective) (inputs : List Entry) : Outcome Shape :=
  match c with
  | .forAll | .thereExists =>
    match inputs with
    | [.placeholder collection, .placeholder binder, body] =>
      .ok (.quantifier collection binder body)
    | [.placeholder _, _, _] => inField "inputs" (refuse (.quantifierSlot c 1) [.item 1])
    | [_, _, _] => inField "inputs" (refuse (.quantifierSlot c 0) [.item 0])
    | _ => inField "inputs" (refuse (.quantifierArity c inputs.length))
  | .not =>
    match inputs with
    | [body] => .ok (.negation body)
    | _ => inField "inputs" (refuse (.negationArity inputs.length))
  | .and | .or =>
    if 2 ≤ inputs.length then .ok (.junction inputs)
    else inField "inputs" (refuse (.junctionArity c inputs.length))

namespace Contract

/-- The contract itself, provided that its inputs fit its connective. -/
def checked (c : Contract) : Outcome Contract := do
  let _ ← c.connective.shape c.inputs
  return c

/-- The variable that the contract binds, if it is a quantifier. -/
def boundVariable? (c : Contract) : Option Bytes :=
  if c.connective.isQuantifier then
    match c.inputs with
    | _ :: .placeholder v :: _ => some v
    | _ => none
  else none

/-- The inputs that are clause bodies, with their places: the last slot of a quantifier, every slot
of another contract. -/
def bodies (c : Contract) : List (Nat × Entry) :=
  if c.connective.isQuantifier then
    match c.inputs with
    | _ :: _ :: body :: _ => [(2, body)]
    | _ => []
  else c.inputs.zipIdx.map fun (e, i) => (i, e)

end Contract

end Clausal
