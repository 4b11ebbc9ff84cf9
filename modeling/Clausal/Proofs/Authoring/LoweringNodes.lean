import Clausal.Proofs.Authoring.LoweringFields
import Clausal.Proofs.Enclosure.Reachability
import Clausal.Proofs.References

/-!
# Lowering nodes

Every class of nodes is lowered as its values are read. What validation may blame afterwards is
known: the addresses of the node, and names that have to be distinct from those of other nodes.
-/

namespace Clausal

open Lowering (Tracks Lowers Nowhere)
open Lowering.Lowers (AfterItems)
open Outcome (FaultsAt)
open Positions (Holds)

/-- Where the references of a list lead. -/
def Reference.Leads (rs : List Reference) (q : Path) : Prop := ∃ r ∈ rs, r.path = q

namespace Reference.Leads

variable {α : Type} {rs ts : List Reference} {q : Path}

lemma of_append (h : Leads (rs ++ ts) q) : Leads rs q ∨ Leads ts q := by
  obtain ⟨r, hr, rfl⟩ := h
  exact (List.mem_append.mp hr).imp (⟨r, ·, rfl⟩) (⟨r, ·, rfl⟩)

lemma of_field {name : String} (h : Leads (ofField name rs) q) :
    ∃ t, Leads rs t ∧ q = .field (Text.ofString name) :: t := by
  obtain ⟨_, hmem, rfl⟩ := h
  obtain ⟨r, hr, rfl⟩ := mem_ofField_iff.mp hmem
  exact ⟨r.path, ⟨r, hr, rfl⟩, rfl⟩

lemma of_items {f : α → List Reference} {as : List α} (h : Leads (ofItems f as) q) :
    ∃ i a t, as[i]? = some a ∧ Leads (f a) t ∧ q = .item i :: t := by
  obtain ⟨_, hmem, rfl⟩ := h
  obtain ⟨i, a, ha, r, hr, rfl⟩ := mem_ofItems_iff.mp hmem
  exact ⟨i, a, r.path, ha, ⟨r, hr, rfl⟩, rfl⟩

end Reference.Leads

/-- An operation that looks at references fails where one of them leads. -/
lemma Outcome.Inspects.faultsAt {α : Type} {sees : Contract → Bytes → Prop} {rs : List Reference}
    {x : Outcome α} (h : x.Inspects (Reference.inspection sees) rs) :
    x.FaultsAt (Reference.Leads rs) := by
  rintro e he f rfl
  obtain ⟨r, ⟨before, after, rfl, -⟩, heq⟩ := h.stops _ he
  obtain rfl := Failure.fault.inj heq
  exact ⟨rfl, r, List.mem_append_right _ List.mem_cons_self, rfl⟩

/-! ### Numbers -/

lemma faultsAt_inputIndex (n : Int) : (inputIndex n).FaultsAt (· = []) := by
  unfold inputIndex
  split
  · exact .ok _
  · exact .refuseShowing rfl

lemma faultsAt_selectors (ns : List Int) :
    (selectors ns).FaultsAt (AfterItems Nowhere ns) := by
  refine .forItems fun i n hn => ?_
  unfold selector
  split
  · exact .ok _
  · exact .refuseShowing ⟨i, n, hn, .inl rfl⟩

variable {D : Document} {config : Config} {S : Path → Prop} {o : Clausal.Fields}

/-- The selectors of an object blame the integers that they were made of. -/
lemma Fields.faultsAt_selectors {lowered : List (Text × (Path → Prop))} (ns : List Int)
    (hmem : (Text.ofString "children", AfterItems Nowhere ns) ∈ lowered) :
    (inField "children" (selectors ns)).FaultsAt fun q => o.Reached S lowered (o.path ++ q) :=
  .below ((Clausal.faultsAt_selectors ns).mono fun _ hq => Fields.At.reached_below hmem hq)

/-- What is known below an object is known of the node that was made of it. -/
lemma Fields.holds_after {lowered : List (Text × (Path → Prop))} {after : Path → Prop}
    {known : Positions} (hknown : Holds D (o.Reached S lowered) known)
    (h : ∀ r, after r → o.Reached S lowered (o.path ++ r)) :
    Holds D (fun q => S q ∨ ∃ r, after r ∧ q = o.path ++ r) known := by
  refine hknown.mono ?_
  rintro q (hq | ⟨r, hr, rfl⟩)
  · exact .inl hq
  · exact h r hr

/-! ### Inputs and calls -/

namespace NormalInput

/-- Where a parameter reference holds its address. -/
def Spot (_ : NormalInput) (q : Path) : Prop := q = [.field "inputIndex"]

lemma spot_of_leads {arity : Nat} {i : NormalInput} {q : Path}
    (h : Reference.Leads (i.references arity) q) : i.Spot q := by
  obtain ⟨r, hr, rfl⟩ := h
  obtain rfl := List.mem_singleton.mp hr
  rfl

lemma lowers (hD : D.Distinct) (cause : NodeTag → Cause) :
    Lowers D (lower config cause) (ofJson config cause) Spot := by
  unfold lower ofJson
  refine Fields.Reads.lowers hD (by decide) fun S o ho => ?_
  refine (ho.tracks_expectTag _ cause (by simp)).bind fun _ _ =>
    (ho.tracks_field (.scalar Json.faultsAt_asInteger) (by decide) (by simp)).bind fun n hn =>
    (ho.tracks_children (by simp)).bind fun ns _ => ?_
  -- the field is recorded before its value is looked at, and the check comes after all fields
  have hindex {lowered : List (Text × (Path → Prop))} :
      o.Reached S lowered (o.path ++ [.field "inputIndex"]) :=
    Fields.At.reached_field (by decide) hn
  refine (Tracks.build ?_).mono (fun _ h => h) fun i _ _ hknown => Fields.holds_after hknown ?_
  · refine FaultsAt.bind (.below ((faultsAt_inputIndex n).mono ?_)) fun _ _ =>
      (Fields.faultsAt_selectors ns List.mem_cons_self).bind fun _ _ => .ok _
    rintro _ rfl
    exact hindex
  · rintro _ rfl
    exact hindex

/-- Its members are looked at in any case, so nothing changes if they are checked before. -/
lemma checkFields_ofJson {cause : NodeTag → Cause} {ms : Members} :
    (Members.checkFields config NodeTag.normalInput.fields ms >>= fun _ =>
      ofJson config cause (.object ms)) = ofJson config cause (.object ms) := by
  have hofJson : Members.ofJson config NodeTag.normalInput.fields (.object ms) =
      Members.checkFields config NodeTag.normalInput.fields ms >>= fun _ => .ok ms := rfl
  rw [ofJson, hofJson]
  cases Members.checkFields config NodeTag.normalInput.fields ms <;> rfl

end NormalInput

namespace Input

/-- Where an input holds its address. -/
def Spot (i : Input) (q : Path) : Prop := ∃ user, Reference.Leads (i.references user) q

lemma lowers (hD : D.Distinct) : Lowers D (lower config) (ofJson config) Spot := by
  unfold lower ofJson
  -- the fields are checked only when the tag is known
  refine Fields.Reads.lowers_any hD fun S o ho => ?_
  refine (ho.tracks_tag _ _ (by simp)).bind fun t ht => ?_
  have haccept : inputVariants.contains t = true := (Members.tag_eq_ok.mp ht).2
  cases t with
  | normalInput =>
    have hlowers : Lowers D (NormalInput.lower config .tagOfNormalInput) _ _ :=
      NormalInput.lowers hD _
    have hnormal := hlowers o.path o.owner ho.isPlain ho.follow S ho.outside ho.self
    -- a parameter reference is lowered from the start, so that its fields are checked twice
    have hchecked : (Members.checkFields config NodeTag.normalInput.fields o.values >>= fun _ =>
        normal <$> NormalInput.ofJson config .tagOfNormalInput o.owner.value) =
        normal <$> NormalInput.ofJson config .tagOfNormalInput o.owner.value := by
      rw [ho.value_owner, ← map_bind, NormalInput.checkFields_ofJson]
    rw [if_pos rfl]
    refine Eq.mpr (congrArg (Tracks _ _ _ _ · _) hchecked) ?_
    refine (hnormal.mono (fun _ hknown => hknown.mono fun _ hq => .inl hq) fun _ _ _ h => h).map
      fun i _ hknown => hknown.mono ?_
    rintro q (hq | ⟨r, ⟨user, hr⟩, rfl⟩)
    · exact .inl hq
    · exact .inr ⟨r, NormalInput.spot_of_leads hr, rfl⟩
  | constantInput | labelInput =>
    rw [if_neg (by decide)]
    refine ho.tracks_again hD (by decide) ?_
    exact (ho.tracks_name (by decide) (by simp)).map fun n _ hknown =>
      Fields.holds_after hknown nofun
  | variableInput =>
    rw [if_neg (by decide)]
    refine ho.tracks_again hD (by decide) ?_
    refine (ho.tracks_name (by decide) (by simp)).bind fun n hn =>
      (ho.tracks_children (by simp)).bind fun ns _ => ?_
    refine (Tracks.build (Fields.faultsAt_selectors ns List.mem_cons_self).map).mono
      (fun _ h => h) fun i _ hi hknown => Fields.holds_after hknown ?_
    obtain ⟨_, -, rfl⟩ := Outcome.map_eq_ok.mp hi
    rintro _ ⟨user, r, hr, rfl⟩
    obtain rfl := List.mem_singleton.mp hr
    exact Fields.At.reached_field (by decide) hn
  | selfInput =>
    rw [if_neg (by decide)]
    refine ho.tracks_again hD (by decide) ?_
    refine (ho.tracks_children (by simp)).bind fun ns _ => ?_
    refine (Tracks.build (Fields.faultsAt_selectors ns List.mem_cons_self).map).mono
      (fun _ h => h) fun i _ hi hknown => Fields.holds_after hknown ?_
    obtain ⟨_, -, rfl⟩ := Outcome.map_eq_ok.mp hi
    nofun
  | _ => simp [inputVariants] at haccept

end Input

/-- A call target that is not an object is refused as such. -/
lemma NormalInput.lowers_target (hD : D.Distinct) :
    Lowers D (lowerTarget config)
      (fun
        | .object source => ofJson config .tagOfCallTarget (.object source)
        | _ => refuse .callTargetNotObject) Spot := by
  intro p d hp hd S hS hself
  unfold lowerTarget
  cases hms : d.members? with
  | none =>
    -- whatever is no object is no object as a value either
    have hother : (match d.value with
        | .object source => ofJson config .tagOfCallTarget (.object source)
        | _ => refuse .callTargetNotObject) = refuse .callTargetNotObject := by
      cases hv : d.value with
      | object js => exact (Document.value_ne_object hms js hv).elim
      | _ => rfl
    dsimp only
    rw [hother]
    exact .fail (Document.position?_of_follow? hd) (Document.isSome_start?_of_follow? hd)
      fun _ h => h.fits
  | some ms =>
    have hvalue := Document.value_of_members? hms
    have hlowers : Lowers D (lower config .tagOfCallTarget) _ _ := lowers hD _
    have htarget := hlowers p d hp hd S hS hself
    rw [hvalue] at htarget ⊢
    exact htarget

namespace Call

/-- Where a call holds its address. -/
def Spot (c : Call) (q : Path) : Prop := ∃ user, Reference.Leads (c.references user) q

lemma lowers (hD : D.Distinct) : Lowers D (lower config) (ofJson config) Spot := by
  unfold lower ofJson
  refine Fields.Reads.lowers_any hD fun S o ho => ?_
  refine (ho.tracks_tag _ _ (by simp)).bind fun t ht => ?_
  have haccept : callVariants.contains t = true := (Members.tag_eq_ok.mp ht).2
  cases t with
  | variablePredicateCall =>
    refine ho.tracks_again hD (by decide) ?_
    exact (Tracks.skip var).mono (fun _ h => h) fun c _ hc hknown =>
      Fields.holds_after hknown (Except.ok.inj hc ▸ nofun)
  | inputPredicateCall =>
    refine ho.tracks_again hD (by decide) ?_
    refine (ho.tracks_required (NormalInput.lowers_target hD) (by decide) (by simp)).map
      fun i _ hknown => Fields.holds_after hknown ?_
    rintro _ ⟨user, hr⟩
    obtain ⟨t, ht, rfl⟩ := hr.of_field
    exact Fields.At.reached_below List.mem_cons_self (NormalInput.spot_of_leads ht)
  | atomicPredicateCall | compiledPredicateCall =>
    refine ho.tracks_again hD (by decide) ?_
    exact (ho.tracks_name (by decide) (by simp)).map fun n _ hknown =>
      Fields.holds_after hknown nofun
  | _ => simp [callVariants] at haccept

end Call

/-! ### Propositions and entries -/

namespace Proposition

/-- Where a proposition holds its addresses. -/
def Spot (p : Proposition) (q : Path) : Prop := ∃ user, Reference.Leads (p.references user) q

lemma lowers (hD : D.Distinct) : Lowers D (lower config) (ofJson config) Spot := by
  have hboolean : Lowers D (fun d path => some <$> Lowering.scalar Json.asBoolean d path)
      (fun j => some <$> j.asBoolean) Nowhere :=
    .map (.scalar Json.faultsAt_asBoolean) fun _ _ h => h
  unfold lower ofJson
  refine Fields.Reads.lowers hD (by decide) fun S o ho => ?_
  refine (ho.tracks_expectTag _ _ (by simp)).bind fun _ _ =>
    (ho.tracks_required (Call.lowers hD) (by decide) (by simp)).bind fun call _ =>
    (ho.tracks_required (.items (Input.lowers hD)) (by decide)
      (Fields.fresh_cons (by decide) (by simp))).bind fun inputs _ =>
    (ho.tracks_optional hboolean (by decide)
      (Fields.fresh_cons (by decide) (Fields.fresh_cons (by decide) (by simp)))
      nofun).bind fun isCompiled _ => ?_
  refine (Tracks.skip _).mono (fun _ h => h) fun p _ hp hknown => Fields.holds_after hknown ?_
  obtain rfl := Except.ok.inj hp
  rintro _ ⟨user, hr⟩
  obtain hr | hr := hr.of_append
  · obtain ⟨t, ht, rfl⟩ := hr.of_field
    exact Fields.At.reached_below (.tail _ (.tail _ (.head _))) ⟨user, ht⟩
  · obtain ⟨_, ht, rfl⟩ := hr.of_field
    obtain ⟨i, input, t, hi, hinput, rfl⟩ := ht.of_items
    exact Fields.At.reached_below (.tail _ (.head _))
      ⟨i, input, hi, .inr ⟨t, ⟨user, hinput⟩, rfl⟩⟩

end Proposition

namespace Entry

/-- Where an entry holds its addresses. -/
def Spot (e : Entry) (q : Path) : Prop := ∃ user, Reference.Leads (e.references user) q

lemma lowers (hD : D.Distinct) : Lowers D (lower config) (ofJson config) Spot := by
  intro p d hp hd S hS hself
  have hstart := Document.isSome_start?_of_follow? hd
  have hposition := Document.position?_of_follow? hd
  refine (Tracks.record hp hd).andThen ?_
  cases ht : d.text? with
  | some t =>
    have htext := Tracks.located (P := Holds D S) hposition hstart (fun _ h => h.fits)
      (Json.faultsAt_textBytes t)
    rw [Document.value_of_text? ht]
    refine htext.map fun n _ hknown => hknown.mono ?_
    rintro q (hq | ⟨_, ⟨user, r, hr, -⟩, -⟩)
    · exact hq
    · cases hr
  | none =>
    cases hms : d.members? with
    | some ms =>
      have hlowers : Lowers D (Proposition.lower config) _ _ := Proposition.lowers hD
      have hproposition := hlowers p d hp hd S hS hself
      rw [Document.value_of_members? hms] at hproposition ⊢
      exact hproposition.map fun q _ hknown => hknown.mono fun _ h => h
    | none =>
      have hother : ofJson config d.value = refuse (.entryJsonType d.value.typeName) := by
        cases hv : d.value with
        | string t => exact (Document.value_ne_string ht t hv).elim
        | object js => exact (Document.value_ne_object hms js hv).elim
        | _ => rfl
      rw [hother]
      exact .fail hposition hstart fun _ h => h.fits

end Entry

/-! ### Contracts and predicates -/

/-- A connective blames the inputs together or one of them. -/
lemma Connective.faultsAt_shape (c : Connective) (es : List Entry) :
    (c.shape es).FaultsAt fun q => q = [.field "inputs"] ∨
      ∃ r, AfterItems Nowhere es r ∧ q = .field "inputs" :: r := by
  refine (c.failsOnly_shape es).mono ?_
  rintro _ ⟨cause, p, -, hp, rfl⟩ f hf
  cases hf
  refine ⟨rfl, ?_⟩
  obtain rfl | ⟨i, hi, rfl⟩ := hp
  · exact .inl rfl
  · exact .inr ⟨_, ⟨i, es[i], List.getElem?_eq_getElem hi, .inl rfl⟩, rfl⟩

/-- Where items hold their names. -/
def NameSpot {α : Type} (_ : α) (q : Path) : Prop := q = [.field "name"]

/-- Names that are not distinct are blamed where the items hold them. -/
lemma faultsAt_distinctNames {α : Type} (as : List α) (name : α → Bytes) :
    (distinctNames [] (as.map name)).FaultsAt (AfterItems NameSpot as) := by
  refine (failsOnly_distinctNames [] (as.map name)).mono ?_
  rintro _ ⟨i, n, hi, rfl⟩ f hf
  cases hf
  rw [List.length_map] at hi
  refine ⟨rfl, i, as[i], List.getElem?_eq_getElem hi, .inr ⟨_, rfl, ?_⟩⟩
  rw [List.length_nil, Nat.zero_add]

namespace Contract

/-- Where a contract holds its name and its addresses. -/
def Spot (c : Contract) (q : Path) : Prop :=
  q = [.field "name"] ∨ ∃ arity, Reference.Leads (c.references arity) q

lemma lowers (hD : D.Distinct) : Lowers D (lower config) (ofJson config) Spot := by
  unfold lower ofJson
  refine Fields.Reads.lowers hD (by decide) fun S o ho => ?_
  refine (ho.tracks_expectTag _ _ (by simp)).bind fun _ _ =>
    (ho.tracks_name (by decide) (by simp)).bind fun name hname =>
    (ho.tracks_name (by decide) (by simp)).bind fun origin _ =>
    (ho.tracks_field (.scalar Json.faultsAt_asSymbol) (by decide)
      (by simp)).bind fun connective _ =>
    (ho.tracks_names (by decide) (by simp)).bind fun inputDefs _ =>
    (ho.tracks_required (.items (Entry.lowers hD)) (by decide) (by simp)).bind fun inputs hinputs =>
    (ho.tracks_optional (.items (NormalInput.lowers hD _)) (by decide)
      (Fields.fresh_cons (by decide) (by simp)) fun _ ⟨_, _, hi, _⟩ => nomatch hi).bind
      fun propertyInputs _ => ?_
  refine (Tracks.build ?_).mono (fun _ h => h) fun c _ hc hknown => Fields.holds_after hknown ?_
  -- the shape is checked on the items just read, so that what it blames is known
  · refine FaultsAt.bind ((connective.faultsAt_shape inputs).mono ?_) fun _ _ => .ok _
    rintro _ (rfl | ⟨_, ⟨i, e, hi, rfl | ⟨_, hnone, -⟩⟩, rfl⟩)
    · exact Fields.At.reached_field (by decide) hinputs
    · exact Fields.At.reached_below (.tail _ (.head _)) ⟨i, e, hi, .inl rfl⟩
    · exact hnone.elim
  -- validation may blame the name, an address in a body or a property input
  · obtain rfl := (checked_eq_ok_iff.mp hc).2
    rintro _ (rfl | ⟨arity, hr⟩)
    · exact Fields.At.reached_field (by decide) hname
    · obtain hr | hr := hr.of_append
      · obtain ⟨_, ⟨_, hmem, rfl⟩, rfl⟩ := hr.of_field
        obtain ⟨⟨i, e⟩, hbody, hentry⟩ := List.mem_flatMap.mp hmem
        obtain ⟨r, hlead, rfl⟩ := List.mem_map.mp hentry
        exact Fields.At.reached_below (.tail _ (.head _)) ⟨i, e, (mem_bodies_iff.mp hbody).1,
          .inr ⟨r.path, ⟨_, r, hlead, rfl⟩, rfl⟩⟩
      · obtain ⟨_, ht, rfl⟩ := hr.of_field
        obtain ⟨i, input, t, hi, hinput, rfl⟩ := ht.of_items
        exact Fields.At.reached_below (.head _)
          ⟨i, input, hi, .inr ⟨t, NormalInput.spot_of_leads hinput, rfl⟩⟩

end Contract

namespace Constant

lemma lowers (hD : D.Distinct) : Lowers D (lower config) (ofJson config) NameSpot := by
  unfold lower ofJson
  refine Fields.Reads.lowers hD (by decide) fun S o ho => ?_
  refine (ho.tracks_field (.scalar Json.faultsAt_asSymbol) (by decide) (by simp)).bind fun kind _ =>
    (ho.tracks_name (by decide) (by simp)).bind fun name hname => ?_
  refine (Tracks.skip _).mono (fun _ h => h) fun _ _ _ hknown => Fields.holds_after hknown ?_
  rintro _ rfl
  exact Fields.At.reached_field (by decide) hname

end Constant

/-- Where declared constants hold their names. -/
def Constant.AllSpot (ks : Option (List Constant)) (q : Path) : Prop :=
  AfterItems NameSpot (ks.getD []) q

namespace Predicate

/-- Where a predicate holds its addresses. -/
def Spot (p : Predicate) (q : Path) : Prop := Reference.Leads p.references q

lemma lowers (hD : D.Distinct) : Lowers D (lower config) (ofJson config) Spot := by
  unfold lower ofJson
  refine Fields.Reads.lowers hD (by decide) fun S o ho => ?_
  have hconstants : Lowers D (fun d p => some <$> Lowering.items (Constant.lower config) d p)
      (fun j => some <$> j.asItems (Constant.ofJson config)) Constant.AllSpot :=
    .map (.items (Constant.lowers hD)) fun _ _ h => h
  refine (ho.tracks_expectTag _ _ (by simp)).bind fun _ _ =>
    (ho.tracks_name (by decide) (by simp)).bind fun name _ =>
    (ho.tracks_names (by decide) (by simp)).bind fun inputDefs _ =>
    (ho.tracks_required (.items (Contract.lowers hD)) (by decide) (by simp)).bind fun contracts _ =>
    (ho.tracks_optional hconstants (by decide) (Fields.fresh_cons (by decide) (by simp))
      fun _ ⟨_, _, hi, _⟩ => nomatch hi).bind fun constants _ =>
    (ho.tracks_name (by decide) (Fields.fresh_cons (by decide)
      (Fields.fresh_cons (by decide) (by simp)))).bind fun entryPoint hentry => ?_
  refine (Tracks.build ?_).mono (fun _ h => h) fun p _ hp hknown => Fields.holds_after hknown ?_
  -- names of contracts and constants are compared with those before them
  · refine FaultsAt.bind (.below ((faultsAt_distinctNames contracts Contract.name).mono ?_))
      fun _ _ => FaultsAt.bind (.below ((faultsAt_distinctNames (constants.getD [])
        Constant.name).mono ?_)) fun _ _ => ?_
    · rintro _ ⟨i, c, hi, rfl | ⟨_, rfl, rfl⟩⟩
      · exact Fields.At.reached_below (.tail _ (.head _)) ⟨i, c, hi, .inl rfl⟩
      · exact Fields.At.reached_below (.tail _ (.head _)) ⟨i, c, hi, .inr ⟨_, .inl rfl, rfl⟩⟩
    · exact fun _ hq => Fields.At.reached_below (.head _) hq
    · split
      · exact FaultsAt.bind (.below (.refuse (Fields.At.reached_field (by decide) hentry)))
          fun _ _ => .ok _
      · exact .ok _
  -- validation blames addresses alone, and those stand in the contracts
  · obtain rfl := (Predicate.checked_eq_ok_iff.mp hp).2
    intro r hr
    obtain ⟨_, hcontract, rfl⟩ := Reference.Leads.of_field hr
    obtain ⟨i, c, t, hi, hc, rfl⟩ := hcontract.of_items
    exact Fields.At.reached_below (.tail _ (.head _)) ⟨i, c, hi, .inr ⟨t, .inr ⟨_, hc⟩, rfl⟩⟩

end Predicate

/-! ### Validation -/

lemma NormalInput.faultsAt_validate (arity : Nat) (i : NormalInput) :
    (i.validate arity).FaultsAt i.Spot := by
  have hinspects : (i.validate arity).Inspects (Reference.inspection fun _ _ => True)
      (i.references arity) := i.validate_inspects
  exact hinspects.faultsAt.mono fun _ h => spot_of_leads h

/-- A contract with certain parameters, for nodes that are validated by themselves. -/
def Contract.withParameters (defs : List Bytes) : Contract where
  name := []
  origin := []
  connective := .and
  inputDefs := defs
  inputs := []

lemma Proposition.faultsAt_validate (defs scope : List Bytes) (p : Proposition) :
    (p.validate defs.length scope).FaultsAt p.Spot := by
  have hinspects : (p.validate defs.length scope).Inspects
      (Reference.inspection fun _ v => v ∈ scope) (p.references (.withParameters defs)) :=
    p.validate_inspects fun _ => Iff.rfl
  exact hinspects.faultsAt.mono fun _ h => ⟨_, h⟩

lemma Contract.faultsAt_validate (inherited : List Bytes) (ownerDefs : Option (List Bytes))
    (c : Contract) : (c.validate inherited ownerDefs).FaultsAt c.Spot := by
  cases ownerDefs with
  | some defs =>
    have hinspects : (c.validate inherited (some defs)).Inspects
        (Reference.inspection fun _ v => v ∈ c.bodyScope inherited) (c.references defs.length) :=
      c.validate_inspects fun _ => Iff.rfl
    exact hinspects.faultsAt.mono fun _ h => .inr ⟨_, h⟩
  | none =>
    have hinspects : (c.validate inherited none).Inspects
        (Reference.inspection fun _ v => v ∈ c.bodyScope inherited) c.bodyReferences :=
      c.validate_inspects_none fun _ => Iff.rfl
    exact hinspects.faultsAt.mono fun _ ⟨r, hr, hq⟩ => .inr ⟨0, r, List.mem_append_left _ hr, hq⟩

lemma Predicate.faultsAt_validate (p : Predicate) : p.validate.FaultsAt p.Spot := by
  refine FaultsAt.bind (.below (.forItems fun i c hc => ?_)) fun _ _ => .ok _
  have hinspects : (c.validate (p.inheritedScopes.get c.name) (some p.inputDefs)).Inspects
      (Reference.inspection fun _ v => v ∈ c.bodyScope (p.inheritedScopes.get c.name))
      (c.references p.inputDefs.length) :=
    c.validate_inspects fun _ => Iff.rfl
  refine FaultsAt.bind (hinspects.faultsAt.mono ?_) fun _ _ => .ok _
  rintro _ ⟨r, hr, rfl⟩
  exact ⟨_, Reference.mem_ofField_iff.mpr
    ⟨_, Reference.mem_ofItems_iff.mpr ⟨i, c, hc, r, hr, rfl⟩, rfl⟩, rfl⟩

end Clausal
