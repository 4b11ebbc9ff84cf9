import Clausal.Proofs.Authoring.Role
import Clausal.Proofs.Json.Order

/-!
# Readings side by side

Two values that are the same up to the order of members are read in two configurations. A relation
between the outcomes goes through all readers if it holds of equal outcomes, goes through steps and
through parts, and holds of the checks for unknown fields, the only step that looks at the
configuration or at the order of members.
-/

namespace Clausal

open Json (Same)
open Members (required optional get?)

/-! ### Members in another order -/

namespace Members

/-- The members of two objects that are the same up to order. -/
def Same (ms ns : Members) : Prop := Json.Same (.object ms) (.object ns)

variable {ms ns : Members}

lemma Same.map_fst_perm (h : Same ms ns) : (ms.map Prod.fst).Perm (ns.map Prod.fst) := by
  cases h with
  | refl => exact .refl _
  | object names _ => exact names

lemma get?_eq_none_iff {field : String} :
    get? ms field = none ↔ Text.ofString field ∉ ms.map Prod.fst := by
  simp only [get?, List.lookup_eq_none_iff, List.mem_map, bne_iff_ne, not_exists, not_and]
  exact forall₂_congr fun m _ => ne_comm

/-- A field is missing in both objects, or it holds the same in both. -/
lemma Same.get? (h : Same ms ns) (field : String) :
    (Members.get? ms field = none ∧ Members.get? ns field = none) ∨
      ∃ a b, Members.get? ms field = some a ∧ Members.get? ns field = some b ∧ Json.Same a b := by
  have hnone : Members.get? ms field = none ↔ Members.get? ns field = none := by
    rw [get?_eq_none_iff, get?_eq_none_iff, h.map_fst_perm.mem_iff]
  -- two values that are the same have the same names, so the field is missing in both or in neither
  cases ha : Members.get? ms field with
  | none => exact .inl ⟨rfl, hnone.mp ha⟩
  | some a =>
    cases hb : Members.get? ns field with
    | none => simp [hnone.mpr hb] at ha
    | some b =>
      refine .inr ⟨a, b, rfl, rfl, ?_⟩
      cases h with
      | refl =>
        rw [ha] at hb
        exact Option.some.inj hb ▸ .refl a
      | object _ values => exact values _ a b ha hb

/-- Both objects have all their members among the fields, or neither has. -/
lemma Same.forall_mem_iff (h : Same ms ns) {fields : List Text} :
    (∀ m ∈ ms, m.1 ∈ fields) ↔ ∀ n ∈ ns, n.1 ∈ fields := by
  have hnames (ms : Members) : (∀ m ∈ ms, m.1 ∈ fields) ↔ ∀ k ∈ ms.map Prod.fst, k ∈ fields :=
    List.forall_mem_map.symm
  simp only [hnames, h.map_fst_perm.mem_iff]

end Members

/-! ### Relations -/

/-- A relation between outcomes that every two readings stand in, one in each configuration, of
values that are the same up to the order of members. -/
structure Relates (config config' : Config) (R : (α : Type) → Outcome α → Outcome α → Prop) :
    Prop where
  refl {α : Type} (x : Outcome α) : R α x x
  bind {α β : Type} {x y : Outcome α} {f g : α → Outcome β} (h : R α x y)
    (hf : ∀ a, R β (f a) (g a)) : R β (x >>= f) (y >>= g)
  below {α : Type} {x y : Outcome α} (steps : Path) (h : R α x y) :
    R α (below steps x) (below steps y)
  checkFields {ms ns : Members} (h : Members.Same ms ns) (fields : List String) :
    R Unit (Members.checkFields config fields ms) (Members.checkFields config' fields ns)

/-- Readers whose outcomes for values that are the same up to the order of members are related. -/
def Related (R : (α : Type) → Outcome α → Outcome α → Prop) {α : Type}
    (read read' : Json → Outcome α) : Prop :=
  ∀ j k, Same j k → R α (read j) (read' k)

namespace Relates

variable {config config' : Config} {R : (α : Type) → Outcome α → Outcome α → Prop} {α β : Type}
  {x y : Outcome α} {read read' : Json → Outcome α}

lemma map (hR : Relates config config' R) (f : α → β) (h : R α x y) : R β (f <$> x) (f <$> y) := by
  rw [map_eq_pure_bind, map_eq_pure_bind]
  exact hR.bind h fun _ => hR.refl _

lemma inField (hR : Relates config config' R) (name : String) (h : R α x y) :
    R α (Clausal.inField name x) (Clausal.inField name y) := hR.below _ h

lemma mapM_zipIdx (hR : Relates config config' R) {js ks : List Json}
    (h : List.Forall₂ (fun j k => R α (read j) (read' k)) js ks) (n : Nat) :
    R (List α) ((js.zipIdx n).mapM fun (j, i) => inItem i (read j))
      ((ks.zipIdx n).mapM fun (k, i) => inItem i (read' k)) := by
  induction h generalizing n with
  | nil => exact hR.refl _
  | cons hjk _ ih =>
    simp only [List.zipIdx_cons, List.mapM_cons]
    exact hR.bind (hR.below _ hjk) fun a => hR.bind (ih _) fun as => hR.refl _

lemma forItems (hR : Relates config config' R) {js ks : List Json}
    (h : List.Forall₂ (fun j k => R α (read j) (read' k)) js ks) :
    R (List α) (Clausal.forItems read js) (Clausal.forItems read' ks) := hR.mapM_zipIdx h 0

/-! ### Values -/

lemma related_bind (hR : Relates config config' R) {f : α → Outcome β} (h : Related R read read') :
    Related R (fun j => read j >>= f) fun j => read' j >>= f :=
  fun j k hjk => hR.bind (h j k hjk) fun _ => hR.refl _

lemma related_map (hR : Relates config config' R) {f : α → β} (h : Related R read read') :
    Related R (fun j => f <$> read j) fun j => f <$> read' j :=
  fun j k hjk => hR.map f (h j k hjk)

lemma asString (hR : Relates config config' R) : Related R Json.asString Json.asString := by
  intro j k h
  cases h <;> exact hR.refl _

lemma asInteger (hR : Relates config config' R) : Related R Json.asInteger Json.asInteger := by
  intro j k h
  cases h <;> exact hR.refl _

lemma asBoolean (hR : Relates config config' R) : Related R Json.asBoolean Json.asBoolean := by
  intro j k h
  cases h <;> exact hR.refl _

lemma asName (hR : Relates config config' R) : Related R Json.asName Json.asName :=
  hR.related_bind hR.asString

lemma asSymbol (hR : Relates config config' R) {σ : Type} [Vocabulary σ] :
    Related R (Json.asSymbol : Json → Outcome σ) Json.asSymbol :=
  hR.related_bind hR.asString

lemma asItems (hR : Relates config config' R) (h : Related R read read') :
    Related R (Json.asItems read) (Json.asItems read') := by
  intro j k hjk
  cases hjk with
  | refl =>
    cases j with
    | array js => exact hR.forItems (List.forall₂_same.mpr fun j _ => h j j (.refl j))
    | _ => exact hR.refl _
  | array length items =>
    have hitems := List.forall₂_iff_zip.mpr ⟨length, fun hp => items _ hp⟩
    exact hR.forItems (hitems.imp h)
  | object names values => exact hR.refl _

variable {j k : Json} {f g : Members → Outcome α}

lemma bind_asMembers (hR : Relates config config' R) (h : Same j k)
    (hf : ∀ ms ns, Members.Same ms ns → R α (f ms) (g ns)) :
    R α (j.asMembers >>= f) (k.asMembers >>= g) := by
  cases h with
  | refl =>
    cases j with
    | object ms => exact hf ms ms (.refl _)
    | _ => exact hR.refl _
  | array length items => exact hR.refl _
  | object names values => exact hf _ _ (.object names values)

lemma bind_ofJson (hR : Relates config config' R) {fields : List String} (h : Same j k)
    (hf : ∀ ms ns, Members.Same ms ns → R α (f ms) (g ns)) :
    R α (Members.ofJson config fields j >>= f) (Members.ofJson config' fields k >>= g) := by
  simp only [Members.ofJson, bind_assoc, pure_bind]
  apply hR.bind_asMembers h
  intro ms ns hms
  exact hR.bind (hR.checkFields hms fields) fun _ => hf ms ns hms

/-! ### Fields -/

variable {ms ns : Members}

lemma required (hR : Relates config config' R) (h : Members.Same ms ns) (field : String)
    (hread : Related R read read') :
    R α (Members.required ms field read) (Members.required ns field read') := by
  unfold Members.required
  rcases h.get? field with ⟨ha, hb⟩ | ⟨a, b, ha, hb, hab⟩
  · rw [ha, hb]
    exact hR.refl _
  · rw [ha, hb]
    exact hR.inField field (hread a b hab)

lemma optional (hR : Relates config config' R) (h : Members.Same ms ns) (field : String)
    (default : α) (hread : Related R read read') :
    R α (Members.optional ms field default read) (Members.optional ns field default read') := by
  unfold Members.optional
  rcases h.get? field with ⟨ha, hb⟩ | ⟨a, b, ha, hb, hab⟩
  · rw [ha, hb]
    exact hR.refl _
  · rw [ha, hb]
    -- null stands only for itself, since nothing else is the same as it
    cases hab with
    | refl =>
      cases a with
      | null => exact hR.refl _
      | _ => exact hR.inField field (hread _ _ (.refl _))
    | array length items => exact hR.inField field (hread _ _ (.array length items))
    | object names values => exact hR.inField field (hread _ _ (.object names values))

lemma tag (hR : Relates config config' R) (h : Members.Same ms ns) (accept : NodeTag → Bool)
    (cause : NodeTag → Cause) :
    R NodeTag (Members.tag ms accept cause) (Members.tag ns accept cause) :=
  hR.required h "type" (hR.related_bind hR.asSymbol)

lemma expectTag (hR : Relates config config' R) (h : Members.Same ms ns) (expected : NodeTag)
    (cause : NodeTag → Cause) :
    R Unit (Members.expectTag ms expected cause) (Members.expectTag ns expected cause) :=
  hR.bind (hR.tag h _ cause) fun _ => hR.refl _

lemma children (hR : Relates config config' R) (h : Members.Same ms ns) :
    R (List Int) (Members.children ms) (Members.children ns) :=
  hR.optional h "children" [] (hR.asItems hR.asInteger)

/-! ### Nodes -/

lemma normalInput (hR : Relates config config' R) (cause : NodeTag → Cause) :
    Related R (NormalInput.ofJson config cause) (NormalInput.ofJson config' cause) := by
  intro j k hjk
  apply hR.bind_ofJson hjk
  intro ms ns h
  refine hR.bind (hR.expectTag h _ _) fun _ => ?_
  refine hR.bind (hR.required h _ hR.asInteger) fun index => ?_
  exact hR.bind (hR.children h) fun children => hR.refl _

lemma input (hR : Relates config config' R) :
    Related R (Input.ofJson config) (Input.ofJson config') := by
  intro j k hjk
  apply hR.bind_asMembers hjk
  intro ms ns h
  refine hR.bind (hR.tag h _ _) fun t => ?_
  refine hR.bind (hR.checkFields h _) fun _ => ?_
  cases t with
  -- the object is opened once more, as a node whose kind is settled
  | normalInput => exact hR.map _ (hR.normalInput _ _ _ hjk)
  | constantInput | labelInput => exact hR.map _ (hR.required h _ hR.asName)
  | variableInput =>
    refine hR.bind (hR.required h _ hR.asName) fun placeholder => ?_
    exact hR.bind (hR.children h) fun children => hR.refl _
  | _ => exact hR.bind (hR.children h) fun children => hR.refl _

lemma call (hR : Relates config config' R) :
    Related R (Call.ofJson config) (Call.ofJson config') := by
  intro j k hjk
  apply hR.bind_asMembers hjk
  intro ms ns h
  refine hR.bind (hR.tag h _ _) fun t => ?_
  refine hR.bind (hR.checkFields h _) fun _ => ?_
  cases t with
  | variablePredicateCall => exact hR.refl _
  | inputPredicateCall =>
    apply hR.map
    apply hR.required h
    intro j k hjk
    cases hjk with
    | refl =>
      cases j with
      | object ms => exact hR.normalInput _ _ _ (.refl _)
      | _ => exact hR.refl _
    | array length items => exact hR.refl _
    | object names values => exact hR.normalInput _ _ _ (.object names values)
  | _ => exact hR.map _ (hR.required h _ hR.asName)

lemma proposition (hR : Relates config config' R) :
    Related R (Proposition.ofJson config) (Proposition.ofJson config') := by
  intro j k hjk
  apply hR.bind_ofJson hjk
  intro ms ns h
  refine hR.bind (hR.expectTag h _ _) fun _ => ?_
  refine hR.bind (hR.required h _ hR.call) fun call => ?_
  refine hR.bind (hR.required h _ (hR.asItems hR.input)) fun inputs => ?_
  exact hR.bind (hR.optional h _ _ (hR.related_map hR.asBoolean)) fun isCompiled => hR.refl _

lemma entry (hR : Relates config config' R) :
    Related R (Entry.ofJson config) (Entry.ofJson config') := by
  intro j k h
  cases h with
  | refl =>
    cases j with
    | object ms => exact hR.map _ (hR.proposition _ _ (.refl _))
    | _ => exact hR.refl _
  | array length items => exact hR.refl _
  | object names values => exact hR.map _ (hR.proposition _ _ (.object names values))

lemma contract (hR : Relates config config' R) :
    Related R (Contract.ofJson config) (Contract.ofJson config') := by
  intro j k hjk
  apply hR.bind_ofJson hjk
  intro ms ns h
  refine hR.bind (hR.expectTag h _ _) fun _ => ?_
  refine hR.bind (hR.required h _ hR.asName) fun name => ?_
  refine hR.bind (hR.required h _ hR.asName) fun origin => ?_
  refine hR.bind (hR.required h _ hR.asSymbol) fun connective => ?_
  refine hR.bind (hR.required h _ (hR.asItems hR.asName)) fun inputDefs => ?_
  refine hR.bind (hR.required h _ (hR.asItems hR.entry)) fun inputs => ?_
  exact hR.bind (hR.optional h _ _ (hR.asItems (hR.normalInput _)))
    fun propertyInputs => hR.refl _

lemma constant (hR : Relates config config' R) :
    Related R (Constant.ofJson config) (Constant.ofJson config') := by
  intro j k hjk
  apply hR.bind_ofJson hjk
  intro ms ns h
  refine hR.bind (hR.required h _ hR.asSymbol) fun kind => ?_
  exact hR.bind (hR.required h _ hR.asName) fun name => hR.refl _

lemma predicate (hR : Relates config config' R) :
    Related R (Predicate.ofJson config) (Predicate.ofJson config') := by
  intro j k hjk
  apply hR.bind_ofJson hjk
  intro ms ns h
  refine hR.bind (hR.expectTag h _ _) fun _ => ?_
  refine hR.bind (hR.required h _ hR.asName) fun name => ?_
  refine hR.bind (hR.required h _ (hR.asItems hR.asName)) fun inputDefs => ?_
  refine hR.bind (hR.required h _ (hR.asItems hR.contract)) fun contracts => ?_
  refine hR.bind (hR.optional h _ _ (hR.related_map (hR.asItems hR.constant)))
    fun constants => ?_
  exact hR.bind (hR.required h _ hR.asName) fun entryPoint => hR.refl _

/-- Readings of values in a role are related. -/
lemma role (hR : Relates config config' R) (r : Role) :
    Related R (fun j => r.ofJson config j) fun j => r.ofJson config' j := by
  cases r with
  | predicate => exact hR.predicate
  | contract => exact hR.contract
  | proposition => exact hR.proposition
  | call => exact hR.call
  | input => exact hR.input
  | constant => exact hR.constant
  | connective => exact hR.asSymbol

end Relates

end Clausal
