import Clausal.Proofs.Authoring.Role
import Clausal.Proofs.Wire.Failing

/-!
# Kinds of faults of values

Whatever value is read as a node, and whatever surroundings the node is checked in, the fault is of
one of a few kinds, or an integer would have to be shown that is too long. Faults of texts and of
bytes are not among them, nor are those of documents that are too large.
-/

namespace Clausal

/-- The kinds of faults that a value can have when it is read as a node. -/
def Json.faultKinds : List FaultKind :=
  [.unknownTag, .tagShapeMismatch, .missingField, .typeMismatch, .unknownField, .outOfRangeIndex,
    .unboundPlaceholder, .invalidCallTarget, .malformedConnectiveArity, .duplicateName]

/-- A fault of one of the kinds above, or an integer that is too long to be shown. -/
def Failure.IsOfValue : Failure → Prop
  | fault f => f.cause.kind ∈ Json.faultKinds
  | misuse m => m = .integerTooLong

lemma Failure.isOfValue_under {steps : Path} {e : Failure} :
    (e.under steps).IsOfValue ↔ e.IsOfValue := by
  cases e <;> rfl

lemma Failure.IsOf.isOfValue {kinds : List FaultKind} {e : Failure} (h : e.IsOf kinds)
    (hkinds : kinds ⊆ Json.faultKinds) : e.IsOfValue := by
  cases e with
  | fault f => exact hkinds h.1
  | misuse m => exact h.elim

namespace Outcome

/-- The operation fails only as reading a value can fail. -/
def FailsOnValue {α : Type} (x : Outcome α) : Prop := x.FailsOnly Failure.IsOfValue

variable {α β : Type} {x : Outcome α}

lemma FailsOnly.onValue {kinds : List FaultKind} (hx : x.FailsOnly (Failure.IsOf kinds))
    (hkinds : kinds ⊆ Json.faultKinds) : x.FailsOnValue := hx.mono fun _ he => he.isOfValue hkinds

namespace FailsOnValue

lemma ok (a : α) : FailsOnValue (.ok a : Outcome α) := FailsOnly.ok a

lemma refuse {cause : Cause} {path : Path} (h : Json.faultKinds.contains cause.kind = true) :
    (Clausal.refuse cause path : Outcome α).FailsOnValue :=
  FailsOnly.refuse (List.contains_iff_mem.mp h)

lemma refuseShowing {n : Int} {cause : Cause} (h : Json.faultKinds.contains cause.kind = true) :
    (Clausal.refuseShowing n cause : Outcome α).FailsOnValue := by
  unfold Clausal.refuseShowing
  split
  · exact refuse h
  · intro e he
    cases he
    rfl

lemma bind {f : α → Outcome β} (hx : x.FailsOnValue) (hf : ∀ a, (f a).FailsOnValue) :
    (x >>= f).FailsOnValue := FailsOnly.bind hx fun a _ => hf a

lemma map {f : α → β} (hx : x.FailsOnValue) : (f <$> x).FailsOnValue := FailsOnly.map hx

lemma below {steps : Path} (hx : x.FailsOnValue) : (Clausal.below steps x).FailsOnValue :=
  FailsOnly.below (hx.mono fun _ => Failure.isOfValue_under.mpr)

lemma forItems {f : α → Outcome β} {as : List α} (hf : ∀ a, (f a).FailsOnValue) :
    (Clausal.forItems f as).FailsOnValue :=
  FailsOnly.forItems fun _ a _ => (hf a).mono fun _ => Failure.isOfValue_under.mpr

/-! ### Values -/

variable {j : Json} {ms : Members} {name : String}

lemma mismatch (expected : String) : (j.mismatch expected : Outcome α).FailsOnValue := refuse rfl

lemma asMembers : j.asMembers.FailsOnValue := by
  cases j with
  | object ms => exact ok ms
  | _ => exact mismatch _

lemma asString : j.asString.FailsOnValue := by
  cases j with
  | string t => exact ok t
  | _ => exact mismatch _

lemma textBytes (t : Text) : (Json.textBytes t).FailsOnValue := by
  unfold Json.textBytes
  split
  · exact ok _
  · exact refuse rfl

lemma asName : j.asName.FailsOnValue := asString.bind textBytes

lemma asInteger : j.asInteger.FailsOnValue := by
  cases j with
  | int n => exact ok n
  | _ => exact mismatch _

lemma asBoolean : j.asBoolean.FailsOnValue := by
  cases j with
  | bool b => exact ok b
  | _ => exact mismatch _

lemma asSymbol [Vocabulary α] : (j.asSymbol : Outcome α).FailsOnValue := by
  refine asString.bind fun t => ?_
  unfold Json.spelledSymbol
  split
  · exact ok _
  · exact refuse rfl

lemma asItems {read : Json → Outcome α} (hread : ∀ v, (read v).FailsOnValue) :
    (j.asItems read).FailsOnValue := by
  cases j with
  | array js => exact forItems hread
  | _ => exact mismatch _

lemma inputIndex (n : Int) : (Clausal.inputIndex n).FailsOnValue := by
  unfold Clausal.inputIndex
  split
  · exact ok _
  · exact refuseShowing rfl

lemma selectors (ns : List Int) : (Clausal.selectors ns).FailsOnValue := by
  refine forItems fun n => ?_
  unfold Clausal.selector
  split
  · exact ok _
  · exact refuseShowing rfl

/-! ### Members -/

lemma required {read : Json → Outcome α} (hread : ∀ v, (read v).FailsOnValue) :
    (Members.required ms name read).FailsOnValue := by
  unfold Members.required
  split
  · exact (hread _).below
  · exact (refuse rfl).below

lemma optional {default : α} {read : Json → Outcome α} (hread : ∀ v, (read v).FailsOnValue) :
    (Members.optional ms name default read).FailsOnValue := by
  unfold Members.optional
  split
  · exact ok default
  · exact ok default
  · exact (hread _).below

lemma requiredName : (Members.required ms name Json.asName).FailsOnValue :=
  required fun _ => asName

lemma requiredNames : (Members.required ms name (Json.asItems Json.asName)).FailsOnValue :=
  required fun _ => asItems fun _ => asName

lemma tag {accept : NodeTag → Bool} {cause : NodeTag → Cause}
    (h : ∀ t, Json.faultKinds.contains (cause t).kind = true) :
    (Members.tag ms accept cause).FailsOnValue := by
  refine required fun v => asSymbol.bind fun t => ?_
  split
  · exact ok t
  · exact refuse (h t)

lemma expectTag {expected : NodeTag} {cause : NodeTag → Cause}
    (h : ∀ t, Json.faultKinds.contains (cause t).kind = true) :
    (Members.expectTag ms expected cause).FailsOnValue := (tag h).bind fun _ => ok ()

lemma checkFields (config : Config) (fields : List String) :
    (Members.checkFields config fields ms).FailsOnValue := by
  unfold Members.checkFields
  split
  · split
    · exact refuse rfl
    · exact ok ()
  · exact ok ()

lemma members (config : Config) (fields : List String) :
    (Members.ofJson config fields j).FailsOnValue :=
  asMembers.bind fun ms => (checkFields config fields).bind fun _ => ok ms

lemma children : (Members.children ms).FailsOnValue := optional fun _ => asItems fun _ => asInteger

end FailsOnValue

end Outcome

open Outcome (FailsOnValue)

variable {config : Config}

/-! ### Reading nodes -/

lemma NormalInput.ofJson_failsOnValue {cause : NodeTag → Cause}
    (h : ∀ t, Json.faultKinds.contains (cause t).kind = true) (j : Json) :
    (NormalInput.ofJson config cause j).FailsOnValue := by
  refine (FailsOnValue.members config _).bind fun ms => ?_
  refine (FailsOnValue.expectTag h).bind fun _ => ?_
  refine (FailsOnValue.required fun _ => .asInteger).bind fun n => ?_
  refine FailsOnValue.children.bind fun ns => ?_
  refine (FailsOnValue.inputIndex n).below.bind fun index => ?_
  exact (FailsOnValue.selectors ns).below.bind fun children => .ok _

lemma Input.ofJson_failsOnValue (j : Json) : (Input.ofJson config j).FailsOnValue := by
  refine FailsOnValue.asMembers.bind fun ms => ?_
  refine (FailsOnValue.tag fun _ => rfl).bind fun t => ?_
  refine (FailsOnValue.checkFields config _).bind fun _ => ?_
  split
  · exact (NormalInput.ofJson_failsOnValue (fun _ => rfl) j).map
  · exact FailsOnValue.requiredName.map
  · exact FailsOnValue.requiredName.map
  · refine FailsOnValue.requiredName.bind fun placeholder => ?_
    exact FailsOnValue.children.bind fun ns => (FailsOnValue.selectors ns).below.map
  · exact FailsOnValue.children.bind fun ns => (FailsOnValue.selectors ns).below.map

lemma Call.ofJson_failsOnValue (j : Json) : (Call.ofJson config j).FailsOnValue := by
  refine FailsOnValue.asMembers.bind fun ms => ?_
  refine (FailsOnValue.tag fun _ => rfl).bind fun t => ?_
  refine (FailsOnValue.checkFields config _).bind fun _ => ?_
  split
  · exact .ok _
  · refine (FailsOnValue.required fun v => ?_).map
    split
    · exact NormalInput.ofJson_failsOnValue (fun _ => rfl) _
    · exact .refuse rfl
  · exact FailsOnValue.requiredName.map
  · exact FailsOnValue.requiredName.map

lemma Proposition.ofJson_failsOnValue (j : Json) :
    (Proposition.ofJson config j).FailsOnValue := by
  refine (FailsOnValue.members config _).bind fun ms => ?_
  refine (FailsOnValue.expectTag fun _ => rfl).bind fun _ => ?_
  refine (FailsOnValue.required Call.ofJson_failsOnValue).bind fun call => ?_
  refine (FailsOnValue.required fun _ => .asItems Input.ofJson_failsOnValue).bind fun inputs => ?_
  exact (FailsOnValue.optional fun _ => FailsOnValue.asBoolean.map).bind fun negated => .ok _

lemma Entry.ofJson_failsOnValue (j : Json) : (Entry.ofJson config j).FailsOnValue := by
  cases j with
  | string t => exact (FailsOnValue.textBytes t).map
  | object ms => exact (Proposition.ofJson_failsOnValue _).map
  | _ => exact .refuse rfl

lemma Contract.ofJson_failsOnValue (j : Json) : (Contract.ofJson config j).FailsOnValue := by
  refine (FailsOnValue.members config _).bind fun ms => ?_
  refine (FailsOnValue.expectTag fun _ => rfl).bind fun _ => ?_
  refine FailsOnValue.requiredName.bind fun name => ?_
  refine FailsOnValue.requiredName.bind fun origin => ?_
  refine (FailsOnValue.required fun _ => .asSymbol).bind fun connective => ?_
  refine FailsOnValue.requiredNames.bind fun inputDefs => ?_
  refine (FailsOnValue.required fun _ => .asItems Entry.ofJson_failsOnValue).bind fun inputs => ?_
  refine (FailsOnValue.optional fun _ => .asItems <|
    NormalInput.ofJson_failsOnValue fun _ => rfl).bind fun propertyInputs => ?_
  exact (failsOnly_checked _).onValue (by decide)

lemma Constant.ofJson_failsOnValue (j : Json) : (Constant.ofJson config j).FailsOnValue := by
  refine (FailsOnValue.members config _).bind fun ms => ?_
  refine (FailsOnValue.required fun _ => .asSymbol).bind fun kind => ?_
  exact FailsOnValue.requiredName.bind fun name => .ok _

lemma Predicate.ofJson_failsOnValue (j : Json) : (Predicate.ofJson config j).FailsOnValue := by
  refine (FailsOnValue.members config _).bind fun ms => ?_
  refine (FailsOnValue.expectTag fun _ => rfl).bind fun _ => ?_
  refine FailsOnValue.requiredName.bind fun name => ?_
  refine FailsOnValue.requiredNames.bind fun inputDefs => ?_
  refine (FailsOnValue.required fun _ =>
    .asItems Contract.ofJson_failsOnValue).bind fun contracts => ?_
  refine (FailsOnValue.optional fun _ =>
    (FailsOnValue.asItems Constant.ofJson_failsOnValue).map).bind fun constants => ?_
  refine FailsOnValue.requiredName.bind fun entryPoint => ?_
  exact (failsOnly_checked _).onValue (by decide)

/-! ### Checking nodes -/

lemma NormalInput.validate_failsOnValue (arity : Nat) (i : NormalInput) :
    (i.validate arity).FailsOnValue := by
  unfold validate
  split
  · exact .ok ()
  · exact (FailsOnValue.refuse rfl).below

lemma checkVisible_failsOnValue (scope : List Bytes) (name : Bytes) :
    (checkVisible scope name).FailsOnValue := by
  unfold checkVisible
  split
  · exact .ok ()
  · exact .refuse rfl

lemma Input.validate_failsOnValue (arity : Nat) (scope : List Bytes) (i : Input) :
    (i.validate arity scope).FailsOnValue := by
  cases i with
  | normal i => exact i.validate_failsOnValue arity
  | var name => exact (checkVisible_failsOnValue scope name).below
  | constant | label | self => exact .ok ()

lemma Call.validate_failsOnValue (arity : Nat) (c : Call) : (c.validate arity).FailsOnValue := by
  cases c with
  | input i => exact (i.validate_failsOnValue arity).below
  | atomic | compiled | var => exact .ok ()

lemma Proposition.validate_failsOnValue (arity : Nat) (scope : List Bytes) (p : Proposition) :
    (p.validate arity scope).FailsOnValue :=
  (p.call.validate_failsOnValue arity).below.bind fun _ =>
    (FailsOnValue.forItems fun i => i.validate_failsOnValue arity scope).below.bind fun _ => .ok ()

lemma Entry.validate_failsOnValue (arity : Nat) (scope : List Bytes) (e : Entry) :
    (e.validate arity scope).FailsOnValue := by
  cases e with
  | proposition p => exact p.validate_failsOnValue arity scope
  | placeholder => exact .ok ()

lemma Contract.validate_failsOnValue (inherited : List Bytes) (ownerDefs : Option (List Bytes))
    (c : Contract) : (c.validate inherited ownerDefs).FailsOnValue := by
  refine (FailsOnValue.below (Outcome.FailsOnly.forM fun b _ => ?_)).bind fun _ => ?_
  · exact (b.2.validate_failsOnValue _ _).below
  · cases ownerDefs with
    | none => exact .ok _
    | some defs =>
      exact (FailsOnValue.forItems fun i => i.validate_failsOnValue _).below.bind fun _ => .ok _

lemma Predicate.validate_failsOnValue (p : Predicate) : p.validate.FailsOnValue :=
  (FailsOnValue.forItems fun c => (c.validate_failsOnValue _ _).bind fun _ => .ok _).below.bind
    fun _ => .ok _

lemma Source.checkInput_failsOnValue (defs scope : Option (List Bytes)) (i : Input) :
    (checkInput defs scope i).FailsOnValue := by
  cases i with
  | normal i =>
    cases defs with
    | some defs => exact i.validate_failsOnValue _
    | none => exact .ok ()
  | var name =>
    cases scope with
    | some scope => exact (checkVisible_failsOnValue scope name).below
    | none => exact .ok ()
  | constant | label | self => exact .ok ()

/-! ### Roles -/

namespace Role

lemma ofJson_failsOnValue (r : Role) (j : Json) : (r.ofJson config j).FailsOnValue := by
  cases r with
  | predicate => exact Predicate.ofJson_failsOnValue j
  | contract => exact Contract.ofJson_failsOnValue j
  | proposition => exact Proposition.ofJson_failsOnValue j
  | call => exact Call.ofJson_failsOnValue j
  | input => exact Input.ofJson_failsOnValue j
  | constant => exact Constant.ofJson_failsOnValue j
  | connective => exact .asSymbol

lemma check_failsOnValue (r : Role) (x : r.Value) : (r.check x).FailsOnValue := by
  cases r with
  | predicate => exact (Predicate.validate_failsOnValue x).bind fun _ => .ok ()
  | contract => exact (Contract.validate_failsOnValue _ _ x).bind fun _ => .ok ()
  | proposition defs scope =>
    cases defs with
    | none => exact .ok ()
    | some defs => exact Proposition.validate_failsOnValue _ _ x
  | input => exact Source.checkInput_failsOnValue _ _ x
  | call | constant | connective => exact .ok ()

/-- A value that denotes nothing in a role, or nothing that is valid there, has a fault of one of
the kinds above, or an integer that is too long to be shown. -/
lemma denoteJson_failsOnValue (config : Config) (r : Role) (j : Json) :
    (r.denoteJson config j).FailsOnValue :=
  (r.ofJson_failsOnValue j).bind fun x => (r.check_failsOnValue x).bind fun _ => .ok x

end Role

end Clausal
