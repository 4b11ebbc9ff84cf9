import Clausal.Proofs.Authoring.Members
import Clausal.Proofs.Node.WellFormed

/-!
# Objects that denote nodes

What an object has to hold to be read as a node: the tag of the node, no members that the
configuration refuses, and in every field the part of the node that belongs there. Contracts and
predicates have to be well formed besides; reading what holds the parts of one comes down to
checking the parts together.
-/

namespace Clausal

open Members (required optional get?)

/-! ### Items -/

namespace Outcome

variable {α β γ : Type} {f : α → Outcome γ} {g : β → Outcome γ}

lemma mapM_zipIdx_congr {as : List α} {bs : List β} (h : List.Forall₂ (fun a b => f a = g b) as bs)
    (k : Nat) : (as.zipIdx k).mapM (fun (a, i) => inItem i (f a)) =
      (bs.zipIdx k).mapM (fun (b, i) => inItem i (g b)) := by
  induction h generalizing k with
  | nil => rfl
  | cons hab _ ih => simp only [List.zipIdx_cons, List.mapM_cons, hab, ih]

/-- Lists whose items are treated alike, one by one, are treated alike. -/
lemma forItems_congr {as : List α} {bs : List β}
    (h : List.Forall₂ (fun a b => f a = g b) as bs) : forItems f as = forItems g bs :=
  mapM_zipIdx_congr h 0

end Outcome

/-! ### Numbers -/

lemma selector_eq_ok {n : Int} {s : Int8} : selector n = .ok s ↔ n = s.toInt := by
  have hlow : -128 ≤ s.toInt := s.le_toInt
  have hhigh : s.toInt ≤ 127 := s.toInt_le
  unfold selector
  split
  · next h =>
    rw [Except.ok.injEq]
    constructor
    · rintro rfl
      exact (Int8.toInt_ofInt_of_le h.1 (Int.lt_add_one_of_le h.2)).symm
    · rintro rfl
      exact Int8.ofInt_toInt s
  · next h =>
    simp only [Outcome.refuseShowing_ne_ok, false_iff]
    omega

lemma selectors_eq_ok {ns : List Int} {cs : List Int8} :
    selectors ns = .ok cs ↔ ns = cs.map Int8.toInt := by
  rw [selectors, Outcome.forItems_eq_ok]
  simp only [selector_eq_ok]
  rw [← List.forall₂_map_right_iff (f := Int8.toInt) (R := Eq), List.forall₂_eq_eq_eq]

lemma inputIndex_eq_ok {n : Int} {b : UInt8} : inputIndex n = .ok b ↔ n = b.toNat := by
  have := b.toNat_lt
  unfold inputIndex
  split
  · next h =>
    rw [Except.ok.injEq, ← UInt8.toNat_inj, UInt8.toNat_ofNat']
    omega
  · next h =>
    simp only [Outcome.refuseShowing_ne_ok, false_iff]
    omega

/-! ### Fields of objects -/

/-- The value of a field that holds a descent path. -/
def childrenJson (cs : List Int8) : Json := .array (cs.map fun s => .int s.toInt)

namespace Members

/-- The field holds a value that stands in the relation `R` to the given part. -/
def Has {α : Type} (ms : Members) (field : String) (R : Json → α → Prop) (a : α) : Prop :=
  ∃ j, get? ms field = some j ∧ R j a

/-- The field holds a name. -/
def HasName (ms : Members) (field : String) (name : Bytes) : Prop :=
  Has ms field (fun j n => nameJson n = .ok j) name

/-- The field holds an array of values that stand in the relation `R` to the given items. -/
def HasItems {α : Type} (ms : Members) (field : String) (R : Json → α → Prop)
    (as : List α) : Prop :=
  ∃ js, get? ms field = some (.array js) ∧ List.Forall₂ R js as

/-- The field is missing or null. -/
def Lacks (ms : Members) (field : String) : Prop :=
  get? ms field = none ∨ get? ms field = some .null

/-- The field holds items, or is missing or null if there are none. -/
def HasOptionalItems {α : Type} (ms : Members) (field : String) (R : Json → α → Prop)
    (as : List α) : Prop :=
  (Lacks ms field ∧ as = []) ∨ HasItems ms field R as

/-- The field holds a value that stands in the relation `R` to the given part, or is missing or null
if there is none. -/
def HasOptional {α : Type} (ms : Members) (field : String) (R : Json → α → Prop) :
    Option α → Prop
  | none => Lacks ms field
  | some a => Has ms field R a

/-- The members hold a descent path, the empty one if they lack it. -/
def HasChildren (ms : Members) (cs : List Int8) : Prop :=
  (Lacks ms "children" ∧ cs = []) ∨ get? ms "children" = some (childrenJson cs)

section Fields

variable {α : Type} {ms : Members} {field : String} {read : Json → Outcome α}
  {R : Json → α → Prop}

lemma required_eq_ok_iff {a : α} (hread : ∀ j a, read j = .ok a ↔ R j a) :
    required ms field read = .ok a ↔ Has ms field R a := by
  simp only [required_eq_ok, hread, Has]

lemma required_asName_eq_ok {name : Bytes} :
    required ms field Json.asName = .ok name ↔ HasName ms field name :=
  required_eq_ok_iff fun _ _ => Json.asName_eq_ok

lemma required_asSymbol_eq_ok {σ : Type} [Vocabulary σ] [Vocabulary.Lawful σ]
    [Vocabulary.Readable σ] {s : σ} : required ms field Json.asSymbol = .ok s ↔
      get? ms field = some (.string (Text.ofString (Vocabulary.spelling s))) := by
  simp [required_eq_ok, Json.asSymbol_eq_ok]

lemma required_asItems_eq_ok {as : List α} (hread : ∀ j a, read j = .ok a ↔ R j a) :
    required ms field (Json.asItems read) = .ok as ↔ HasItems ms field R as := by
  simp only [required_eq_ok, Json.asItems_eq_ok, HasItems, hread]
  grind

lemma optional_asItems_eq_ok {as : List α} (hread : ∀ j a, read j = .ok a ↔ R j a) :
    optional ms field [] (Json.asItems read) = .ok as ↔ HasOptionalItems ms field R as := by
  simp only [optional_eq_ok, Json.asItems_eq_ok, HasOptionalItems, HasItems, Lacks, hread]
  grind

lemma optional_some_eq_ok {o : Option α} (hnull : ∀ a, ¬ R .null a)
    (hread : ∀ j a, read j = .ok a ↔ R j a) :
    optional ms field none (fun j => some <$> read j) = .ok o ↔ HasOptional ms field R o := by
  simp only [optional_eq_ok, Outcome.map_eq_ok, hread]
  cases o with
  | none => simp [HasOptional, Lacks]
  | some a =>
    simp only [HasOptional, Has, reduceCtorEq, and_false, Option.some.injEq, false_or]
    grind

lemma exists_children_iff {cs : List Int8} :
    (∃ ns, Members.children ms = .ok ns ∧ inField "children" (selectors ns) = .ok cs) ↔
      HasChildren ms cs := by
  have hitems (js : List Json) (ns : List Int) :
      List.Forall₂ (fun j n => j.asInteger = .ok n) js ns ↔ js = ns.map .int := by
    simp only [Json.asInteger_eq_ok]
    rw [← List.forall₂_map_right_iff (f := Json.int) (R := Eq), List.forall₂_eq_eq_eq]
  simp only [Members.children, optional_eq_ok, inField_eq_ok, selectors_eq_ok, Json.asItems_eq_ok,
    hitems, HasChildren, Lacks, childrenJson]
  constructor
  -- missing and null descent paths are empty
  · rintro ⟨_, ⟨hlacks, rfl⟩ | ⟨_, hget, -, _, rfl, rfl⟩, hcs⟩
    · exact .inl ⟨hlacks, List.map_eq_nil_iff.mp hcs.symm⟩
    · subst hcs
      exact .inr (by rw [hget, List.map_map]; rfl)
  · rintro (⟨hlacks, rfl⟩ | hget)
    · exact ⟨[], .inl ⟨hlacks, rfl⟩, rfl⟩
    · exact ⟨_, .inr ⟨_, hget, by simp, _, rfl, by rw [List.map_map]; rfl⟩, rfl⟩

end Fields

/-- An object with a tag whose members are all accepted. -/
structure HasTag (config : Config) (ms : Members) (t : NodeTag) : Prop where
  type : get? ms "type" = some (.string (Text.ofString t.name))
  fields : checkFields config t.fields ms = .ok ()

end Members

open Members (Has HasName HasItems HasOptionalItems HasOptional HasChildren HasTag)

variable {config : Config} {j : Json}

/-! ### Inputs and calls -/

/-- The members are those of a parameter reference. -/
structure NormalInput.Fields (ms : Members) (i : NormalInput) : Prop where
  index : get? ms "inputIndex" = some (.int i.index.toNat)
  children : HasChildren ms i.children

/-- The object of a parameter reference. -/
def NormalInput.DenotedBy (config : Config) (j : Json) (i : NormalInput) : Prop :=
  ∃ ms, j = .object ms ∧ HasTag config ms .normalInput ∧ i.Fields ms

lemma NormalInput.ofJson_eq_ok {cause : NodeTag → Cause} {i : NormalInput} :
    NormalInput.ofJson config cause j = .ok i ↔ i.DenotedBy config j := by
  simp only [NormalInput.ofJson, Outcome.bind_eq_ok, Members.ofJson_eq_ok,
    Members.expectTag_eq_ok, Members.required_eq_ok, Json.asInteger_eq_ok, inField_eq_ok,
    inputIndex_eq_ok, Outcome.pure_eq_ok]
  constructor
  · rintro ⟨ms, ⟨rfl, hfields⟩, _, htype, _, ⟨_, hindex, rfl⟩, ns, hns, index, rfl, cs, hcs, rfl⟩
    exact ⟨ms, rfl, ⟨htype, hfields⟩, hindex,
      Members.exists_children_iff.mp ⟨ns, hns, inField_eq_ok.mpr hcs⟩⟩
  · rintro ⟨ms, rfl, ⟨htype, hfields⟩, hindex, hchildren⟩
    obtain ⟨ns, hns, hcs⟩ := Members.exists_children_iff.mpr hchildren
    exact ⟨ms, ⟨rfl, hfields⟩, (), htype, _, ⟨_, hindex, rfl⟩, ns, hns, _, rfl, _,
      inField_eq_ok.mp hcs, rfl⟩

/-- The members are those of an input. -/
def Input.Fields (ms : Members) : Input → Prop
  | constant name => HasName ms "name" name
  | label text => HasName ms "label" text
  | normal i => i.Fields ms
  | var placeholder children => HasName ms "placeholder" placeholder ∧ HasChildren ms children
  | self children => HasChildren ms children

/-- The object of an input. -/
def Input.DenotedBy (config : Config) (j : Json) (i : Input) : Prop :=
  ∃ ms, j = .object ms ∧ HasTag config ms i.tag ∧ i.Fields ms

lemma Input.ofJson_eq_ok {i : Input} : Input.ofJson config j = .ok i ↔ i.DenotedBy config j := by
  simp only [Input.ofJson, Outcome.bind_eq_ok, Json.asMembers_eq_ok, Members.tag_eq_ok]
  constructor
  -- the tag decides which fields are read, and the fields are those of its class
  · rintro ⟨ms, rfl, t, ⟨htype, ht⟩, _, hfields, h⟩
    cases t with
    | normalInput =>
      simp only [Outcome.map_eq_ok, NormalInput.ofJson_eq_ok] at h
      obtain ⟨n, ⟨_, ⟨rfl⟩, -, hn⟩, rfl⟩ := h
      exact ⟨ms, rfl, ⟨htype, hfields⟩, hn⟩
    | constantInput | labelInput =>
      simp only [Outcome.map_eq_ok, Members.required_asName_eq_ok] at h
      obtain ⟨name, hname, rfl⟩ := h
      exact ⟨ms, rfl, ⟨htype, hfields⟩, hname⟩
    | variableInput =>
      simp only [Outcome.bind_eq_ok, Outcome.map_eq_ok, Members.required_asName_eq_ok] at h
      obtain ⟨name, hname, ns, hns, cs, hcs, rfl⟩ := h
      exact ⟨ms, rfl, ⟨htype, hfields⟩, hname, Members.exists_children_iff.mp ⟨ns, hns, hcs⟩⟩
    | selfInput =>
      simp only [Outcome.bind_eq_ok, Outcome.map_eq_ok] at h
      obtain ⟨ns, hns, cs, hcs, rfl⟩ := h
      exact ⟨ms, rfl, ⟨htype, hfields⟩, Members.exists_children_iff.mp ⟨ns, hns, hcs⟩⟩
    | _ => simp [inputVariants] at ht
  · rintro ⟨ms, rfl, ⟨htype, hfields⟩, hi⟩
    refine ⟨ms, rfl, i.tag, ⟨htype, by cases i <;> rfl⟩, (), hfields, ?_⟩
    cases i with
    | normal n =>
      simp only [tag, Outcome.map_eq_ok, NormalInput.ofJson_eq_ok]
      exact ⟨n, ⟨ms, rfl, ⟨htype, hfields⟩, hi⟩, rfl⟩
    | constant name | label name =>
      simp only [tag, Outcome.map_eq_ok, Members.required_asName_eq_ok]
      exact ⟨name, hi, rfl⟩
    | var name cs =>
      obtain ⟨ns, hns, hcs⟩ := Members.exists_children_iff.mpr hi.2
      simp only [tag, Outcome.bind_eq_ok, Outcome.map_eq_ok, Members.required_asName_eq_ok]
      exact ⟨name, hi.1, ns, hns, cs, hcs, rfl⟩
    | self cs =>
      obtain ⟨ns, hns, hcs⟩ := Members.exists_children_iff.mpr hi
      simp only [tag, Outcome.bind_eq_ok, Outcome.map_eq_ok]
      exact ⟨ns, hns, cs, hcs, rfl⟩

/-- The members are those of a call. -/
def Call.Fields (config : Config) (ms : Members) : Call → Prop
  | atomic source | compiled source => HasName ms "source" source
  | input source => Has ms "source" (NormalInput.DenotedBy config) source
  | var => True

/-- The object of a call. -/
def Call.DenotedBy (config : Config) (j : Json) (c : Call) : Prop :=
  ∃ ms, j = .object ms ∧ HasTag config ms c.tag ∧ c.Fields config ms

lemma Call.ofJson_eq_ok {c : Call} : Call.ofJson config j = .ok c ↔ c.DenotedBy config j := by
  simp only [Call.ofJson, Outcome.bind_eq_ok, Json.asMembers_eq_ok, Members.tag_eq_ok]
  constructor
  · rintro ⟨ms, rfl, t, ⟨htype, ht⟩, _, hfields, h⟩
    cases t with
    | variablePredicateCall =>
      obtain rfl := Outcome.pure_eq_ok.mp h
      exact ⟨ms, rfl, ⟨htype, hfields⟩, trivial⟩
    | inputPredicateCall =>
      simp only [Outcome.map_eq_ok, Members.required_eq_ok] at h
      obtain ⟨n, ⟨j, hget, hn⟩, rfl⟩ := h
      split at hn
      · exact ⟨ms, rfl, ⟨htype, hfields⟩, _, hget, NormalInput.ofJson_eq_ok.mp hn⟩
      · simp at hn
    | atomicPredicateCall | compiledPredicateCall =>
      simp only [Outcome.map_eq_ok, Members.required_asName_eq_ok] at h
      obtain ⟨name, hname, rfl⟩ := h
      exact ⟨ms, rfl, ⟨htype, hfields⟩, hname⟩
    | _ => simp [callVariants] at ht
  · rintro ⟨ms, rfl, ⟨htype, hfields⟩, hc⟩
    refine ⟨ms, rfl, c.tag, ⟨htype, by cases c <;> rfl⟩, (), hfields, ?_⟩
    cases c with
    | var => exact Outcome.pure_eq_ok.mpr rfl
    | atomic name | compiled name =>
      simp only [tag, Outcome.map_eq_ok, Members.required_asName_eq_ok]
      exact ⟨name, hc, rfl⟩
    | input n =>
      obtain ⟨_, hget, hn⟩ := hc
      simp only [tag, Outcome.map_eq_ok, Members.required_eq_ok]
      refine ⟨n, ⟨_, hget, ?_⟩, rfl⟩
      obtain ⟨ns, rfl, -⟩ := id hn
      exact NormalInput.ofJson_eq_ok.mpr hn

/-! ### Propositions and entries -/

/-- The members are those of a proposition. -/
structure Proposition.Fields (config : Config) (ms : Members) (p : Proposition) : Prop where
  call : Has ms "predicate" (Call.DenotedBy config) p.call
  inputs : HasItems ms "inputs" (Input.DenotedBy config) p.inputs
  isCompiled : HasOptional ms "isCompiled" (fun j b => j = .bool b) p.isCompiled

/-- The object of a proposition. -/
def Proposition.DenotedBy (config : Config) (j : Json) (p : Proposition) : Prop :=
  ∃ ms, j = .object ms ∧ HasTag config ms .atomicProposition ∧ p.Fields config ms

lemma Proposition.ofJson_eq_ok {p : Proposition} :
    Proposition.ofJson config j = .ok p ↔ p.DenotedBy config j := by
  simp only [Proposition.ofJson, Outcome.bind_eq_ok, Members.ofJson_eq_ok,
    Members.expectTag_eq_ok, Members.required_eq_ok_iff fun j c => Call.ofJson_eq_ok,
    Members.required_asItems_eq_ok fun j i => Input.ofJson_eq_ok,
    Members.optional_some_eq_ok (R := fun j b => j = .bool b) (by simp)
      fun j b => Json.asBoolean_eq_ok, Outcome.pure_eq_ok]
  constructor
  · rintro ⟨ms, ⟨rfl, hfields⟩, _, htype, call, hcall, inputs, hinputs, flag, hflag, rfl⟩
    exact ⟨ms, rfl, ⟨htype, hfields⟩, hcall, hinputs, hflag⟩
  · rintro ⟨ms, rfl, ⟨htype, hfields⟩, hcall, hinputs, hflag⟩
    exact ⟨ms, ⟨rfl, hfields⟩, (), htype, _, hcall, _, hinputs, _, hflag, rfl⟩

/-- The string or the object of a contract entry. -/
def Entry.DenotedBy (config : Config) (j : Json) : Entry → Prop
  | placeholder name => nameJson name = .ok j
  | proposition p => p.DenotedBy config j

lemma Entry.ofJson_eq_ok {e : Entry} : Entry.ofJson config j = .ok e ↔ e.DenotedBy config j := by
  cases e with
  | placeholder name =>
    rw [DenotedBy, ← Json.asName_eq_ok, Json.asName_eq_ok_iff_textBytes]
    cases j <;> simp [Entry.ofJson]
  | proposition p =>
    rw [DenotedBy, ← Proposition.ofJson_eq_ok]
    cases j with
    | object ms => simp [Entry.ofJson]
    | _ =>
      simp only [Proposition.ofJson_eq_ok, Proposition.DenotedBy]
      simp [Entry.ofJson]

/-! ### Contracts -/

/-- The members are those of a contract, well formed or not. -/
structure Contract.Fields (config : Config) (ms : Members) (c : Contract) : Prop where
  name : HasName ms "name" c.name
  origin : HasName ms "originalPredicateName" c.origin
  connective : get? ms "connective" =
    some (.string (Text.ofString (Vocabulary.spelling c.connective)))
  inputDefs : HasItems ms "inputDefs" (fun j n => nameJson n = .ok j) c.inputDefs
  inputs : HasItems ms "inputs" (Entry.DenotedBy config) c.inputs
  propertyInputs : HasOptionalItems ms "propertyInputs"
    (NormalInput.DenotedBy config) c.propertyInputs

/-- The object of a contract, well formed or not. -/
def Contract.DenotedBy (config : Config) (j : Json) (c : Contract) : Prop :=
  ∃ ms, j = .object ms ∧ HasTag config ms .intermediateCompiledPredicate ∧ c.Fields config ms

/-- Reading the object of a contract comes down to checking the contract. -/
lemma Contract.ofJson_eq_checked {c : Contract} (h : c.DenotedBy config j) :
    Contract.ofJson config j = c.checked := by
  obtain ⟨ms, rfl, htag, hc⟩ := h
  have hms := Members.ofJson_eq_ok.mpr ⟨rfl, htag.fields⟩
  have htype : Members.expectTag ms .intermediateCompiledPredicate
      (.tagOfObject · .intermediateCompiledPredicate) = .ok () :=
    Members.expectTag_eq_ok.mpr htag.type
  have hname := Members.required_asName_eq_ok.mpr hc.name
  have horigin := Members.required_asName_eq_ok.mpr hc.origin
  have hconnective := Members.required_asSymbol_eq_ok.mpr hc.connective
  have hdefs := (Members.required_asItems_eq_ok fun j n => Json.asName_eq_ok).mpr hc.inputDefs
  have hinputs := (Members.required_asItems_eq_ok fun j e => Entry.ofJson_eq_ok).mpr hc.inputs
  have hproperties : optional ms "propertyInputs" []
      (Json.asItems (NormalInput.ofJson config .tagOfNormalInput)) = .ok c.propertyInputs :=
    (Members.optional_asItems_eq_ok fun j i => NormalInput.ofJson_eq_ok).mpr hc.propertyInputs
  simp only [Contract.ofJson, hms, htype, hname, horigin, hconnective, hdefs, hinputs, hproperties,
    bind, Except.bind]

lemma Contract.ofJson_eq_ok {c : Contract} :
    Contract.ofJson config j = .ok c ↔ c.WellFormed ∧ c.DenotedBy config j := by
  constructor
  -- every step of reading says what it found; together they are what the contract denotes
  · simp only [Contract.ofJson, Outcome.bind_eq_ok, Members.ofJson_eq_ok, Members.expectTag_eq_ok,
      Members.required_asName_eq_ok, Members.required_asSymbol_eq_ok,
      Members.required_asItems_eq_ok fun j n => Json.asName_eq_ok,
      Members.required_asItems_eq_ok fun j e => Entry.ofJson_eq_ok,
      Members.optional_asItems_eq_ok fun j i => NormalInput.ofJson_eq_ok, checked_eq_ok_iff]
    rintro ⟨ms, ⟨rfl, hfields⟩, _, htype, name, hname, origin, horigin, connective,
      hconnective, defs, hdefs, inputs, hinputs, properties, hproperties, hwf, rfl⟩
    exact ⟨hwf, ms, rfl, ⟨htype, hfields⟩, hname, horigin, hconnective, hdefs, hinputs,
      hproperties⟩
  · rintro ⟨hwf, h⟩
    rw [ofJson_eq_checked h]
    exact checked_eq_ok_iff.mpr ⟨hwf, rfl⟩

/-! ### Constants and predicates -/

/-- The object of a constant. -/
structure Constant.Fields (ms : Members) (c : Constant) : Prop where
  kind : get? ms "varType" = some (.string (Text.ofString (Vocabulary.spelling c.kind)))
  name : HasName ms "name" c.name

/-- The object of a constant, which has no tag. -/
def Constant.DenotedBy (config : Config) (j : Json) (c : Constant) : Prop :=
  ∃ ms, j = .object ms ∧ Members.checkFields config constantFields ms = .ok () ∧ c.Fields ms

lemma Constant.ofJson_eq_ok {c : Constant} :
    Constant.ofJson config j = .ok c ↔ c.DenotedBy config j := by
  simp only [Constant.ofJson, Outcome.bind_eq_ok, Members.ofJson_eq_ok,
    Members.required_asSymbol_eq_ok, Members.required_asName_eq_ok, Outcome.pure_eq_ok]
  constructor
  · rintro ⟨ms, ⟨rfl, hfields⟩, kind, hkind, name, hname, rfl⟩
    exact ⟨ms, rfl, hfields, hkind, hname⟩
  · rintro ⟨ms, rfl, hfields, hkind, hname⟩
    exact ⟨ms, ⟨rfl, hfields⟩, _, hkind, _, hname, rfl⟩

/-- The array of constants. -/
def Constant.AllDenotedBy (config : Config) (j : Json) (cs : List Constant) : Prop :=
  ∃ js, j = .array js ∧ List.Forall₂ (Constant.DenotedBy config) js cs

lemma Constant.asItems_ofJson_eq_ok {cs : List Constant} :
    j.asItems (Constant.ofJson config) = .ok cs ↔ AllDenotedBy config j cs := by
  simp only [Json.asItems_eq_ok, ofJson_eq_ok, AllDenotedBy]

/-- The members are those of a predicate, well formed or not. -/
structure Predicate.Fields (config : Config) (ms : Members) (p : Predicate) : Prop where
  name : HasName ms "name" p.name
  inputDefs : HasItems ms "inputDefs" (fun j n => nameJson n = .ok j) p.inputDefs
  contracts : HasItems ms "contracts" (Contract.DenotedBy config) p.contracts
  constants : HasOptional ms "constants" (Constant.AllDenotedBy config) p.constants
  entryPoint : HasName ms "entryPoint" p.entryPoint

/-- The object of a predicate, well formed or not. -/
def Predicate.DenotedBy (config : Config) (j : Json) (p : Predicate) : Prop :=
  ∃ ms, j = .object ms ∧ HasTag config ms .compiledPredicate ∧ p.Fields config ms

/-- Reading the object of a predicate comes down to checking its contracts and then its parts. -/
lemma Predicate.ofJson_eq_assemble {p : Predicate} (h : p.DenotedBy config j) :
    Predicate.ofJson config j = p.assemble := by
  obtain ⟨ms, rfl, htag, hp⟩ := h
  -- contracts are put together before they are compared with one another
  obtain ⟨js, hget, hjs⟩ := hp.contracts
  have hms := Members.ofJson_eq_ok.mpr ⟨rfl, htag.fields⟩
  have htype : Members.expectTag ms .compiledPredicate (.tagOfObject · .compiledPredicate) =
      .ok () := Members.expectTag_eq_ok.mpr htag.type
  have hname := Members.required_asName_eq_ok.mpr hp.name
  have hdefs := (Members.required_asItems_eq_ok fun j n => Json.asName_eq_ok).mpr hp.inputDefs
  have hcontracts : required ms "contracts" (Json.asItems (Contract.ofJson config)) =
      inField "contracts" (forItems Contract.checked p.contracts) := by
    rw [required, hget]
    exact congrArg (inField _)
      (Outcome.forItems_congr (hjs.imp fun j c => Contract.ofJson_eq_checked))
  have hconstants := (Members.optional_some_eq_ok (by simp [Constant.AllDenotedBy])
    fun j cs => Constant.asItems_ofJson_eq_ok).mpr hp.constants
  have hentry := Members.required_asName_eq_ok.mpr hp.entryPoint
  simp only [Predicate.ofJson, hms, htype, hname, hdefs, hcontracts, hconstants, hentry,
    bind, Except.bind, assemble]

lemma Predicate.ofJson_eq_ok {p : Predicate} :
    Predicate.ofJson config j = .ok p ↔ p.WellFormed ∧ p.DenotedBy config j := by
  constructor
  · simp only [Predicate.ofJson, Outcome.bind_eq_ok, Members.ofJson_eq_ok, Members.expectTag_eq_ok,
      Members.required_asName_eq_ok, Members.required_asItems_eq_ok fun j n => Json.asName_eq_ok,
      Members.required_asItems_eq_ok fun j c => Contract.ofJson_eq_ok,
      Members.optional_some_eq_ok (R := Constant.AllDenotedBy config)
        (by simp [Constant.AllDenotedBy]) fun j cs => Constant.asItems_ofJson_eq_ok,
      checked_eq_ok_iff]
    rintro ⟨ms, ⟨rfl, hfields⟩, _, htype, name, hname, defs, hdefs, contracts,
      ⟨js, hget, hjs⟩, constants, hconstants, entry, hentry, hcoherent, rfl⟩
    -- well-formedness and denotation are told apart item by item
    have hwf : (∀ c ∈ contracts, c.WellFormed) ∧
        List.Forall₂ (fun c j => Contract.DenotedBy config j c) contracts js :=
      (List.forall₂_and_left _ _).mp hjs.flip
    exact ⟨⟨hcoherent, hwf.1⟩, ms, rfl, ⟨htype, hfields⟩, hname, hdefs, ⟨js, hget, hwf.2.flip⟩,
      hconstants, hentry⟩
  · rintro ⟨hwf, h⟩
    rw [ofJson_eq_assemble h]
    exact assemble_eq_ok.mpr ⟨hwf, rfl⟩

end Clausal
