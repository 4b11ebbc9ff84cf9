import Clausal.Proofs.Inspecting
import Clausal.Validation

/-!
# References

The addresses in a node have an order: contract by contract, in a contract body by body and the
property inputs last, in a body the source of the call before the inputs. Validation looks at them
in this order and stops at the first that is not legal.
-/

namespace Clausal

/-! ### Addresses -/

/-- What an address says: which parameter is meant, where there are `arity` of them, or which
variable, where the bodies of `user` have to see it. -/
inductive Address where
  | parameter (index : UInt8) (arity : Nat)
  | var (name : Bytes) (user : Contract)

namespace Address

/-- There is such a parameter, or the variable is among those that its user sees. -/
def Legal (sees : Contract → Bytes → Prop) : Address → Prop
  | parameter index arity => index.toNat < arity
  | var name user => sees user name

/-- Why the address is refused if it is not legal. -/
def cause : Address → Cause
  | parameter index arity => .indexOutOfRange index.toNat arity
  | var name _ => .unboundVariable name

/-- The kind of fault that the address is if it is not legal. -/
def faultKind : Address → FaultKind
  | parameter .. => .outOfRangeIndex
  | var .. => .unboundPlaceholder

lemma kind_cause (a : Address) : a.cause.kind = a.faultKind := by
  cases a <;> rfl

end Address

/-- An address and the path that leads to it. -/
structure Reference where
  path : Path
  address : Address

namespace Reference

/-- The reference as seen from `steps` above. -/
def under (steps : Path) (r : Reference) : Reference := { r with path := steps ++ r.path }

/-- The references of a field, as seen from the object with the field. -/
def ofField (name : String) (rs : List Reference) : List Reference :=
  rs.map (under [.field (Text.ofString name)])

/-- The references of one item after the other, as seen from the list of items. -/
def ofItems {α : Type} (f : α → List Reference) (as : List α) : List Reference :=
  as.zipIdx.flatMap fun (a, i) => (f a).map (under [.item i])

/-- The failure of an operation that refuses the address. -/
def failure (r : Reference) : Failure := .fault ⟨r.address.cause, r.path, none⟩

/-- References are in order if their addresses are legal, and refused one by one if not. -/
def inspection (sees : Contract → Bytes → Prop) : Inspection Reference where
  InOrder r := r.address.Legal sees
  failure := failure
  under := under
  inOrder_under _ _ := Iff.rfl
  failure_under _ _ := rfl

end Reference

open Reference (ofField ofItems)

/-! ### References in order -/

/-- The reference to one of `arity` parameters. -/
def NormalInput.references (arity : Nat) (i : NormalInput) : List Reference :=
  [⟨[.field "inputIndex"], .parameter i.index arity⟩]

/-- The reference of an input of the contract `user`, if it is one. -/
def Input.references (user : Contract) : Input → List Reference
  | normal i => i.references user.inputDefs.length
  | var name _ => [⟨[.field "placeholder"], .var name user⟩]
  | constant _ | label _ | self _ => []

/-- The reference of a call to a parameter. -/
def Call.references (user : Contract) : Call → List Reference
  | input source => ofField "source" (source.references user.inputDefs.length)
  | atomic _ | compiled _ | var => []

/-- The references of a proposition, that of the call before those of the inputs. -/
def Proposition.references (user : Contract) (q : Proposition) : List Reference :=
  ofField "predicate" (q.call.references user) ++
    ofField "inputs" (ofItems (Input.references user) q.inputs)

/-- The references of an entry. -/
def Entry.references (user : Contract) : Entry → List Reference
  | proposition q => q.references user
  | placeholder _ => []

/-- The references of the bodies of a contract. -/
def Contract.bodyReferences (c : Contract) : List Reference :=
  ofField "inputs" (c.bodies.flatMap fun (i, e) => (e.references c).map (.under [.item i]))

/-- The references of a contract: those of the bodies, then the property inputs, which are
parameters of the owner. -/
def Contract.references (ownerArity : Nat) (c : Contract) : List Reference :=
  c.bodyReferences ++
    ofField "propertyInputs" (ofItems (NormalInput.references ownerArity) c.propertyInputs)

/-- The references of a predicate. -/
def Predicate.references (p : Predicate) : List Reference :=
  ofField "contracts" (ofItems (Contract.references p.inputDefs.length) p.contracts)

/-! ### Membership -/

namespace Reference

variable {α : Type} {r : Reference} {rs : List Reference} {f : α → List Reference} {as : List α}

@[simp] lemma mem_ofField_iff {name : String} :
    r ∈ ofField name rs ↔ ∃ q ∈ rs, r = q.under [.field (Text.ofString name)] := by
  simp [ofField, eq_comm]

@[simp] lemma mem_ofItems_iff :
    r ∈ ofItems f as ↔ ∃ i a, as[i]? = some a ∧ ∃ q ∈ f a, r = q.under [.item i] := by
  simp only [ofItems, List.mem_flatMap, List.mem_map, Prod.exists, List.mem_zipIdx_iff_getElem?]
  grind

end Reference

/-! ### Validation looks at references in order -/

open Outcome (Inspects)

variable {sees : Contract → Bytes → Prop} {user c : Contract} {arity : Nat} {scope : List Bytes}

lemma NormalInput.validate_inspects (i : NormalInput) :
    (i.validate arity).Inspects (Reference.inspection sees) (i.references arity) := by
  unfold validate
  split
  · next h => exact .of_inOrder (i := (⟨_, .parameter i.index arity⟩ : Reference)) h ()
  · next h => exact .of_not_inOrder (i := (⟨_, .parameter i.index arity⟩ : Reference)) h

lemma Input.validate_inspects (hscope : ∀ v, v ∈ scope ↔ sees user v) (i : Input) :
    (i.validate user.inputDefs.length scope).Inspects (Reference.inspection sees)
      (i.references user) := by
  cases i with
  | normal i => exact i.validate_inspects
  | var name cs =>
    have hlegal := hscope name
    rw [validate, checkVisible]
    split
    · next h =>
      have hsees : sees user name := hlegal.mp (by simpa using h)
      exact .of_inOrder (i := (⟨_, .var name user⟩ : Reference)) hsees ()
    · next h =>
      refine .of_not_inOrder (i := (⟨_, .var name user⟩ : Reference)) fun hsees => h ?_
      simpa using hlegal.mpr hsees
  | constant | label | self => exact .ok ()

lemma Call.validate_inspects (c : Call) :
    (c.validate user.inputDefs.length).Inspects (Reference.inspection sees)
      (c.references user) := by
  cases c with
  | input i => exact i.validate_inspects.inField
  | atomic | compiled | var => exact .ok ()

lemma Proposition.validate_inspects (hscope : ∀ v, v ∈ scope ↔ sees user v) (q : Proposition) :
    (q.validate user.inputDefs.length scope).Inspects (Reference.inspection sees)
      (q.references user) :=
  q.call.validate_inspects.inField.bind fun _ =>
    (Inspects.forItems fun i _ => i.validate_inspects hscope).inField.bind_ok _

lemma Entry.validate_inspects (hscope : ∀ v, v ∈ scope ↔ sees user v) (e : Entry) :
    (e.validate user.inputDefs.length scope).Inspects (Reference.inspection sees)
      (e.references user) := by
  cases e with
  | proposition q => exact q.validate_inspects hscope
  | placeholder name => exact .ok ()

lemma Contract.bodies_inspect (hscope : ∀ v, v ∈ scope ↔ sees c v) :
    (inField "inputs" (c.bodies.forM fun (i, e) =>
      inItem i (e.validate c.inputDefs.length scope))).Inspects (Reference.inspection sees)
      c.bodyReferences :=
  (Inspects.forM fun _ _ => (Entry.validate_inspects hscope _).below).inField

lemma Contract.validate_inspects {inherited defs : List Bytes}
    (hscope : ∀ v, v ∈ c.bodyScope inherited ↔ sees c v) :
    (c.validate inherited (some defs)).Inspects (Reference.inspection sees)
      (c.references defs.length) :=
  (bodies_inspect hscope).bind fun _ =>
    (Inspects.forItems fun i _ => i.validate_inspects).inField.bind_ok _

/-- Without an owner the property inputs are not looked at. -/
lemma Contract.validate_inspects_none {inherited : List Bytes}
    (hscope : ∀ v, v ∈ c.bodyScope inherited ↔ sees c v) :
    (c.validate inherited none).Inspects (Reference.inspection sees) c.bodyReferences :=
  (bodies_inspect hscope).bind_ok _

end Clausal
