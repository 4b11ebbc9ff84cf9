import Clausal.Proofs.Authoring.Relating

/-!
# Refusing unknown fields

A configuration that refuses unknown fields reads what another one reads, or refuses it for an
unknown field. It refuses no value whose objects, as far as they are read as nodes or constants,
have only members that are fields of their kinds.
-/

namespace Clausal

open Members (get? Lacks Has HasName HasItems HasOptional HasOptionalItems HasTag)

/-! ### Operations that are filtered -/

/-- The operation fails with a fault of the kind. -/
def Outcome.FailsFor {α : Type} (kind : FaultKind) (x : Outcome α) : Prop :=
  ∃ f, x = .error (.fault f) ∧ f.cause.kind = kind

/-- The first operation does what the second does, or fails with a fault of the kind. -/
def Filters {α : Type} (kind : FaultKind) (x y : Outcome α) : Prop := x = y ∨ x.FailsFor kind

variable {kind : FaultKind} {α β : Type} {x y : Outcome α} {config config' : Config}

lemma Outcome.FailsFor.bind {f : α → Outcome β} (h : x.FailsFor kind) :
    (x >>= f).FailsFor kind := by
  obtain ⟨fault, rfl, hkind⟩ := h
  exact ⟨fault, rfl, hkind⟩

lemma Outcome.FailsFor.below {steps : Path} (h : x.FailsFor kind) :
    (Clausal.below steps x).FailsFor kind := by
  obtain ⟨fault, rfl, hkind⟩ := h
  exact ⟨_, rfl, hkind⟩

lemma Outcome.FailsFor.place {d : Document} (h : x.FailsFor kind) : (d.place x).FailsFor kind := by
  obtain ⟨fault, rfl, hkind⟩ := h
  exact ⟨_, rfl, hkind⟩

namespace Filters

lemma refl (x : Outcome α) : Filters kind x x := .inl rfl

lemma bind {f g : α → Outcome β} (hx : Filters kind x y) (hf : ∀ a, Filters kind (f a) (g a)) :
    Filters kind (x >>= f) (y >>= g) := by
  rcases hx with rfl | hx
  · cases x with
    | ok a => exact hf a
    | error e => exact refl _
  · exact .inr hx.bind

lemma below (steps : Path) (hx : Filters kind x y) :
    Filters kind (Clausal.below steps x) (Clausal.below steps y) :=
  hx.imp (congrArg _) .below

lemma place (d : Document) (hx : Filters kind x y) : Filters kind (d.place x) (d.place y) :=
  hx.imp (congrArg _) .place

lemma checkFields (h : config'.rejectUnknownFields = false) (ms ns : Members)
    (fields : List String) : Filters .unknownField (Members.checkFields config fields ms)
      (Members.checkFields config' fields ns) := by
  have hpasses : Members.checkFields config' fields ns = .ok () := by
    rw [Members.checkFields, h]
    rfl
  rw [hpasses, Members.checkFields]
  split
  · split
    · exact .inr ⟨_, rfl, rfl⟩
    · exact refl _
  · exact refl _

/-- Any reading filters one that passes over unknown fields. -/
lemma relates (h : config'.rejectUnknownFields = false) :
    Relates config config' fun _ => Filters .unknownField :=
  ⟨refl, bind, below, fun _ => checkFields h _ _⟩

end Filters

/-! ### Objects that are read -/

/-- An object that is read as a node or a constant, with the fields of its kind. -/
structure ReadObject where
  members : Members
  fields : List String

/-- All members are fields of the kind. -/
def ReadObject.Known (o : ReadObject) : Prop := ∀ m ∈ o.members, m.1 ∈ o.fields.map Text.ofString

/-- The objects that are read from the value of a field, if it is there. -/
def Members.objectsIn (ms : Members) (field : String) (f : Json → List ReadObject) :
    List ReadObject :=
  ((get? ms field).map f).getD []

/-- The objects that are read from the items of an array. -/
def Json.objectsInItems (f : Json → List ReadObject) : Json → List ReadObject
  | array js => js.flatMap f
  | _ => []

open Members (objectsIn)
open Json (objectsInItems)

/-- A parameter reference is one object. -/
def NormalInput.objects : Json → List ReadObject
  | .object ms => [⟨ms, NodeTag.normalInput.fields⟩]
  | _ => []

/-- An input is one object, of the kind that it says it is. -/
def Input.objects : Json → List ReadObject
  | .object ms => [⟨ms, (Json.object ms).taggedFields⟩]
  | _ => []

/-- A call is an object of the kind that it says it is. If calls of this kind have a source then an
object in its place is another one. -/
def Call.objects : Json → List ReadObject
  | .object ms => ⟨ms, (Json.object ms).taggedFields⟩ ::
      if "source" ∈ (Json.object ms).taggedFields then objectsIn ms "source" NormalInput.objects
      else []
  | _ => []

/-- A proposition is an object with those of its call and of its inputs. -/
def Proposition.objects : Json → List ReadObject
  | .object ms => ⟨ms, NodeTag.atomicProposition.fields⟩ ::
      (objectsIn ms "predicate" Call.objects ++
        objectsIn ms "inputs" (objectsInItems Input.objects))
  | _ => []

/-- A contract is an object with those of the propositions among its inputs and of its property
inputs. -/
def Contract.objects : Json → List ReadObject
  | .object ms => ⟨ms, NodeTag.intermediateCompiledPredicate.fields⟩ ::
      (objectsIn ms "inputs" (objectsInItems Proposition.objects) ++
        objectsIn ms "propertyInputs" (objectsInItems NormalInput.objects))
  | _ => []

/-- A constant is one object. -/
def Constant.objects : Json → List ReadObject
  | .object ms => [⟨ms, constantFields⟩]
  | _ => []

/-- A predicate is an object with those of its contracts and constants. -/
def Predicate.objects : Json → List ReadObject
  | .object ms => ⟨ms, NodeTag.compiledPredicate.fields⟩ ::
      (objectsIn ms "contracts" (objectsInItems Contract.objects) ++
        objectsIn ms "constants" (objectsInItems Constant.objects))
  | _ => []

/-- The objects that are read from a value in a role. -/
def Role.objects : Role → Json → List ReadObject
  | predicate => Predicate.objects
  | contract .. => Contract.objects
  | proposition .. => Proposition.objects
  | call => Call.objects
  | input .. => Input.objects
  | constant => Constant.objects
  | connective => fun _ => []

/-! ### What is left of a relation when unknown fields are refused -/

/-- All of the objects have known members only. -/
def AllKnown (os : List ReadObject) : Prop := ∀ o ∈ os, o.Known

@[simp] lemma allKnown_nil : AllKnown [] := fun _ => nofun

@[simp] lemma allKnown_cons {o : ReadObject} {os : List ReadObject} :
    AllKnown (o :: os) ↔ o.Known ∧ AllKnown os := List.forall_mem_cons

@[simp] lemma allKnown_append {os os' : List ReadObject} :
    AllKnown (os ++ os') ↔ AllKnown os ∧ AllKnown os' := List.forall_mem_append

section Narrowing

variable {α : Type} {R R' : Json → α → Prop} {f : Json → List ReadObject} {ms : Members}
  {field : String} {j : Json}

lemma Members.allKnown_objectsIn (h : get? ms field = some j) :
    AllKnown (objectsIn ms field f) ↔ AllKnown (f j) := by
  rw [objectsIn, h]
  rfl

/-- No objects are read from a field that is missing or null. -/
lemma Members.Lacks.allKnown_objectsIn (h : Lacks ms field) (hf : f .null = []) :
    AllKnown (objectsIn ms field f) := by
  rcases h with h | h
  · rw [objectsIn, h]
    exact allKnown_nil
  · rw [Members.allKnown_objectsIn h, hf]
    exact allKnown_nil

/-- A value stands in the first relation to a part if it does in the second and the objects that
are read from it have known members only. -/
def Narrows (R R' : Json → α → Prop) (f : Json → List ReadObject) : Prop :=
  ∀ j a, R j a ↔ R' j a ∧ AllKnown (f j)

namespace Narrows

lemma forall₂_iff (h : Narrows R R' f) {js : List Json} {as : List α} :
    List.Forall₂ R js as ↔ List.Forall₂ R' js as ∧ AllKnown (js.flatMap f) := by
  induction js generalizing as with
  | nil => simp
  | cons j js ih =>
    simp only [List.forall₂_cons_left_iff, List.flatMap_cons, allKnown_append, ih, h j]
    constructor
    · rintro ⟨a, as, ⟨ha, hj⟩, ⟨has, hjs⟩, rfl⟩
      exact ⟨⟨a, as, ha, has, rfl⟩, hj, hjs⟩
    · rintro ⟨⟨a, as, ha, has, rfl⟩, hj, hjs⟩
      exact ⟨a, as, ⟨ha, hj⟩, ⟨has, hjs⟩, rfl⟩

lemma has_iff (h : Narrows R R' f) {a : α} :
    Has ms field R a ↔ Has ms field R' a ∧ AllKnown (objectsIn ms field f) := by
  constructor
  · rintro ⟨j, hget, hj⟩
    rw [h] at hj
    exact ⟨⟨j, hget, hj.1⟩, (Members.allKnown_objectsIn hget).mpr hj.2⟩
  · rintro ⟨⟨j, hget, hj⟩, hknown⟩
    exact ⟨j, hget, (h j a).mpr ⟨hj, (Members.allKnown_objectsIn hget).mp hknown⟩⟩

lemma hasItems_iff (h : Narrows R R' f) {as : List α} : HasItems ms field R as ↔
    HasItems ms field R' as ∧ AllKnown (objectsIn ms field (objectsInItems f)) := by
  constructor
  · rintro ⟨js, hget, hjs⟩
    rw [h.forall₂_iff] at hjs
    exact ⟨⟨js, hget, hjs.1⟩, (Members.allKnown_objectsIn hget).mpr hjs.2⟩
  · rintro ⟨⟨js, hget, hjs⟩, hknown⟩
    exact ⟨js, hget, h.forall₂_iff.mpr ⟨hjs, (Members.allKnown_objectsIn hget).mp hknown⟩⟩

lemma hasOptionalItems_iff (h : Narrows R R' f) {as : List α} : HasOptionalItems ms field R as ↔
    HasOptionalItems ms field R' as ∧ AllKnown (objectsIn ms field (objectsInItems f)) := by
  unfold HasOptionalItems
  rw [h.hasItems_iff, or_and_right]
  refine or_congr ⟨fun hlacks => ⟨hlacks, ?_⟩, And.left⟩ .rfl
  exact hlacks.1.allKnown_objectsIn rfl

lemma hasOptional_iff (h : Narrows R R' f) (hf : f .null = []) {o : Option α} :
    HasOptional ms field R o ↔
      HasOptional ms field R' o ∧ AllKnown (objectsIn ms field f) := by
  cases o with
  | none => exact ⟨fun hlacks => ⟨hlacks, hlacks.allKnown_objectsIn hf⟩, And.left⟩
  | some a => exact h.has_iff

end Narrows

end Narrowing

/-! ### Nodes with unknown fields refused -/

/-- The first configuration refuses unknown fields, the second one passes over them. -/
structure Config.Stricter (strict lenient : Config) : Prop where
  refuses : strict.rejectUnknownFields = true
  passes : lenient.rejectUnknownFields = false

namespace Config.Stricter

variable {strict lenient : Config} {ms : Members}

lemma checkFields_iff (h : strict.Stricter lenient) {fields : List String} :
    Members.checkFields strict fields ms = .ok () ↔
      Members.checkFields lenient fields ms = .ok () ∧ ReadObject.Known ⟨ms, fields⟩ := by
  simp [Members.checkFields_eq_ok_iff, h.refuses, h.passes, ReadObject.Known]

lemma hasTag_iff (h : strict.Stricter lenient) {t : NodeTag} :
    HasTag strict ms t ↔ HasTag lenient ms t ∧ ReadObject.Known ⟨ms, t.fields⟩ := by
  constructor
  · rintro ⟨htype, hfields⟩
    rw [h.checkFields_iff] at hfields
    exact ⟨⟨htype, hfields.1⟩, hfields.2⟩
  · rintro ⟨⟨htype, hfields⟩, hknown⟩
    exact ⟨htype, h.checkFields_iff.mpr ⟨hfields, hknown⟩⟩

/-- The object of a node is the first of those that are read from it; the rest are read from its
fields. -/
lemma narrows (h : strict.Stricter lenient) {α : Type} {t : α → NodeTag}
    {F F' : Members → α → Prop} {f : Json → List ReadObject} {rest : Members → List ReadObject}
    (hf : ∀ ms a, HasTag lenient ms (t a) → f (.object ms) = ⟨ms, (t a).fields⟩ :: rest ms)
    (hF : ∀ ms a, HasTag lenient ms (t a) → (F ms a ↔ F' ms a ∧ AllKnown (rest ms))) :
    Narrows (fun j a => ∃ ms, j = .object ms ∧ HasTag strict ms (t a) ∧ F ms a)
      (fun j a => ∃ ms, j = .object ms ∧ HasTag lenient ms (t a) ∧ F' ms a) f := by
  intro j a
  constructor
  · rintro ⟨ms, rfl, htag, ha⟩
    obtain ⟨htag, hknown⟩ := h.hasTag_iff.mp htag
    obtain ⟨ha, hrest⟩ := (hF ms a htag).mp ha
    rw [hf ms a htag]
    exact ⟨⟨ms, rfl, htag, ha⟩, allKnown_cons.mpr ⟨hknown, hrest⟩⟩
  · rintro ⟨⟨ms, rfl, htag, ha⟩, hknown⟩
    rw [hf ms a htag, allKnown_cons] at hknown
    exact ⟨ms, rfl, h.hasTag_iff.mpr ⟨htag, hknown.1⟩, (hF ms a htag).mpr ⟨ha, hknown.2⟩⟩

lemma normalInput (h : strict.Stricter lenient) :
    Narrows (NormalInput.DenotedBy strict) (NormalInput.DenotedBy lenient) NormalInput.objects :=
  h.narrows (fun _ _ _ => rfl) fun _ _ _ => (and_iff_left allKnown_nil).symm

lemma input (h : strict.Stricter lenient) :
    Narrows (Input.DenotedBy strict) (Input.DenotedBy lenient) Input.objects := by
  refine h.narrows ?_ fun _ _ _ => (and_iff_left allKnown_nil).symm
  intro ms i htag
  rw [Input.objects, Json.taggedFields_of_hasTag htag]

lemma call (h : strict.Stricter lenient) :
    Narrows (Call.DenotedBy strict) (Call.DenotedBy lenient) Call.objects := by
  have hobjects (ms : Members) (c : Call) (htag : HasTag lenient ms c.tag) :
      Call.objects (.object ms) = ⟨ms, c.tag.fields⟩ ::
        if "source" ∈ (Json.object ms).taggedFields then objectsIn ms "source" NormalInput.objects
        else [] := by
    rw [Call.objects, Json.taggedFields_of_hasTag htag]
  apply h.narrows hobjects
  intro ms c htag
  rw [Json.taggedFields_of_hasTag htag]
  -- a name is no object, so nothing is read from a source that is one
  have hname {name : Bytes} (hname : HasName ms "source" name) :
      AllKnown (objectsIn ms "source" NormalInput.objects) := by
    obtain ⟨j, hget, hj⟩ := hname
    obtain ⟨cs, -, rfl⟩ := nameJson_eq_ok.mp hj
    exact (Members.allKnown_objectsIn hget).mpr allKnown_nil
  cases c with
  | atomic source => exact (and_iff_left_of_imp hname).symm
  | compiled source => exact (and_iff_left_of_imp hname).symm
  | input source => exact h.normalInput.has_iff
  | var => exact (and_iff_left allKnown_nil).symm

lemma proposition (h : strict.Stricter lenient) :
    Narrows (Proposition.DenotedBy strict) (Proposition.DenotedBy lenient)
      Proposition.objects := by
  apply h.narrows fun _ _ _ => rfl
  intro ms p _
  rw [allKnown_append]
  constructor
  · rintro ⟨hcall, hinputs, hflag⟩
    rw [h.call.has_iff] at hcall
    rw [h.input.hasItems_iff] at hinputs
    exact ⟨⟨hcall.1, hinputs.1, hflag⟩, hcall.2, hinputs.2⟩
  · rintro ⟨⟨hcall, hinputs, hflag⟩, hcalls, hobjects⟩
    exact ⟨h.call.has_iff.mpr ⟨hcall, hcalls⟩, h.input.hasItems_iff.mpr ⟨hinputs, hobjects⟩, hflag⟩

lemma entry (h : strict.Stricter lenient) :
    Narrows (Entry.DenotedBy strict) (Entry.DenotedBy lenient) Proposition.objects := by
  intro j e
  cases e with
  | placeholder name =>
    refine (and_iff_left_of_imp fun hj => ?_).symm
    obtain ⟨cs, -, rfl⟩ := nameJson_eq_ok.mp hj
    exact allKnown_nil
  | proposition p => exact h.proposition j p

lemma contract (h : strict.Stricter lenient) :
    Narrows (Contract.DenotedBy strict) (Contract.DenotedBy lenient) Contract.objects := by
  apply h.narrows fun _ _ _ => rfl
  intro ms c _
  -- what the class itself asks for does not depend on the option; entries and property inputs do
  rw [allKnown_append]
  constructor
  · rintro ⟨hname, horigin, hconnective, hdefs, hinputs, hproperties⟩
    rw [h.entry.hasItems_iff] at hinputs
    rw [h.normalInput.hasOptionalItems_iff] at hproperties
    exact ⟨⟨hname, horigin, hconnective, hdefs, hinputs.1, hproperties.1⟩, hinputs.2,
      hproperties.2⟩
  · rintro ⟨⟨hname, horigin, hconnective, hdefs, hinputs, hproperties⟩, hbodies, hobjects⟩
    exact ⟨hname, horigin, hconnective, hdefs, h.entry.hasItems_iff.mpr ⟨hinputs, hbodies⟩,
      h.normalInput.hasOptionalItems_iff.mpr ⟨hproperties, hobjects⟩⟩

lemma constant (h : strict.Stricter lenient) :
    Narrows (Constant.DenotedBy strict) (Constant.DenotedBy lenient) Constant.objects := by
  intro j c
  constructor
  · rintro ⟨ms, rfl, hfields, hc⟩
    obtain ⟨hfields, hknown⟩ := h.checkFields_iff.mp hfields
    exact ⟨⟨ms, rfl, hfields, hc⟩, allKnown_cons.mpr ⟨hknown, allKnown_nil⟩⟩
  · rintro ⟨⟨ms, rfl, hfields, hc⟩, hknown⟩
    exact ⟨ms, rfl, h.checkFields_iff.mpr ⟨hfields, (allKnown_cons.mp hknown).1⟩, hc⟩

lemma constants (h : strict.Stricter lenient) :
    Narrows (Constant.AllDenotedBy strict) (Constant.AllDenotedBy lenient)
      (objectsInItems Constant.objects) := by
  intro j cs
  constructor
  · rintro ⟨js, rfl, hjs⟩
    rw [h.constant.forall₂_iff] at hjs
    exact ⟨⟨js, rfl, hjs.1⟩, hjs.2⟩
  · rintro ⟨⟨js, rfl, hjs⟩, hknown⟩
    exact ⟨js, rfl, h.constant.forall₂_iff.mpr ⟨hjs, hknown⟩⟩

lemma predicate (h : strict.Stricter lenient) :
    Narrows (Predicate.DenotedBy strict) (Predicate.DenotedBy lenient) Predicate.objects := by
  apply h.narrows fun _ _ _ => rfl
  intro ms p _
  -- only contracts and constants can hold objects with members of their own
  rw [allKnown_append]
  constructor
  · rintro ⟨hname, hdefs, hcontracts, hconstants, hentry⟩
    rw [h.contract.hasItems_iff] at hcontracts
    rw [h.constants.hasOptional_iff rfl] at hconstants
    exact ⟨⟨hname, hdefs, hcontracts.1, hconstants.1, hentry⟩, hcontracts.2, hconstants.2⟩
  · rintro ⟨⟨hname, hdefs, hcontracts, hconstants, hentry⟩, hobjects, hknown⟩
    exact ⟨hname, hdefs, h.contract.hasItems_iff.mpr ⟨hcontracts, hobjects⟩,
      (h.constants.hasOptional_iff rfl).mpr ⟨hconstants, hknown⟩, hentry⟩

/-- With unknown fields refused a value denotes what it does otherwise, provided that the objects
that are read have known members only. -/
lemma role (h : strict.Stricter lenient) (r : Role) :
    Narrows (fun j x => r.ofJson strict j = .ok x) (fun j x => r.ofJson lenient j = .ok x)
      r.objects := by
  intro j x
  cases r with
  | predicate =>
    simp only [Role.ofJson, Predicate.ofJson_eq_ok, h.predicate j x, and_assoc]
    rfl
  | contract =>
    simp only [Role.ofJson, Contract.ofJson_eq_ok, h.contract j x, and_assoc]
    rfl
  | proposition =>
    simp only [Role.ofJson, Proposition.ofJson_eq_ok]
    exact h.proposition j x
  | call =>
    simp only [Role.ofJson, Call.ofJson_eq_ok]
    exact h.call j x
  | input =>
    simp only [Role.ofJson, Input.ofJson_eq_ok]
    exact h.input j x
  | constant =>
    simp only [Role.ofJson, Constant.ofJson_eq_ok]
    exact h.constant j x
  | connective => exact (and_iff_left allKnown_nil).symm

end Config.Stricter

end Clausal
