import Clausal.Proofs.Authoring.Projection

/-!
# Normal forms of documents

The normal form of a value keeps, in every object that is a node, the fields of the node in their
order. Fields that may be missing are left out if they are missing or null, or supplied as empty
arrays; everything else stays what it is. A value that denotes a node is written, up to its normal
form, as the node is.
-/

namespace Clausal

open Members (get? Lacks Has HasName HasItems HasOptionalItems HasOptional HasChildren HasTag)

/-! ### Normal forms -/

/-- Fields that are left out if they are missing or null. -/
def omittedFields : List String := ["isCompiled", "constants"]

/-- Fields that are empty arrays if they are missing or null. -/
def suppliedFields : List String := ["children", "propertyInputs"]

namespace Members

/-- The value of a field, unless it is null. -/
def present? (ms : Members) (field : String) : Option Json :=
  match get? ms field with
  | some .null | none => none
  | some j => some j

/-- The value that a field has in the normal form. -/
def normal? (ms : Members) (field : String) : Option Json :=
  if field ∈ omittedFields then present? ms field
  else if field ∈ suppliedFields then some ((present? ms field).getD (.array []))
  else get? ms field

end Members

namespace Json

/-- The object of the given fields, each with its part in normal form. -/
def normalObject (fields : List String) (part : String → Json → Json) : Json → Json
  | object ms => .object (fields.filterMap fun f =>
      (Members.normal? ms f).map fun j => (Text.ofString f, part f j))
  | j => j

/-- The array of items in normal form. -/
def mapItems (f : Json → Json) : Json → Json
  | array js => .array (js.map f)
  | j => j

@[simp] lemma mapItems_array (f : Json → Json) (js : List Json) :
    mapItems f (.array js) = .array (js.map f) := rfl

/-- The fields of the node that an object says it is. -/
def taggedFields : Json → List String
  | object ms =>
    match get? ms "type" with
    | some (.string t) => ((Vocabulary.ofSpelling? t : Option NodeTag).map NodeTag.fields).getD []
    | _ => []
  | _ => []

end Json

/-- The normal form of a parameter reference. -/
def NormalInput.normalForm : Json → Json :=
  Json.normalObject NodeTag.normalInput.fields fun _ j => j

@[simp] lemma NormalInput.normalForm_string (t : Text) : normalForm (.string t) = .string t := rfl

/-- The normal form of an input. -/
def Input.normalForm (j : Json) : Json := j.normalObject j.taggedFields fun _ j => j

/-- The normal form of a call, whose source can be a parameter reference. -/
def Call.normalForm (j : Json) : Json :=
  j.normalObject j.taggedFields fun _ j => NormalInput.normalForm j

/-- The normal form of a proposition. -/
def Proposition.normalForm : Json → Json :=
  Json.normalObject NodeTag.atomicProposition.fields fun
    | "predicate", j => Call.normalForm j
    | "inputs", j => j.mapItems Input.normalForm
    | _, j => j

/-- The normal form of a contract, among whose inputs can be propositions. -/
def Contract.normalForm : Json → Json :=
  Json.normalObject NodeTag.intermediateCompiledPredicate.fields fun
    | "inputs", j => j.mapItems Proposition.normalForm
    | "propertyInputs", j => j.mapItems NormalInput.normalForm
    | _, j => j

/-- The normal form of a constant. -/
def Constant.normalForm : Json → Json := Json.normalObject constantFields fun _ j => j

/-- The normal form of a predicate. -/
def Predicate.normalForm : Json → Json :=
  Json.normalObject NodeTag.compiledPredicate.fields fun
    | "contracts", j => j.mapItems Contract.normalForm
    | "constants", j => j.mapItems Constant.normalForm
    | _, j => j

/-! ### Fields in normal form -/

namespace Members

variable {ms : Members} {field : String}

lemma present?_of_lacks (h : Lacks ms field) : present? ms field = none := by
  rcases h with h | h <;> simp [present?, h]

lemma present?_of_get? {j : Json} (h : get? ms field = some j) (hj : j ≠ .null) :
    present? ms field = some j := by
  unfold present?
  rw [h]
  cases j <;> first | rfl | contradiction

lemma HasChildren.getD_present? {cs : List Int8} (h : HasChildren ms cs) :
    (present? ms "children").getD (.array []) = childrenJson cs := by
  rcases h with ⟨hlacks, rfl⟩ | hget
  · rw [present?_of_lacks hlacks]
    rfl
  · rw [present?_of_get? hget nofun]
    rfl

end Members

lemma Json.taggedFields_of_hasTag {config : Config} {ms : Members} {t : NodeTag}
    (h : HasTag config ms t) : (Json.object ms).taggedFields = t.fields := by
  have ht : (Vocabulary.ofSpelling? (Text.ofString t.name) : Option NodeTag) = some t :=
    Vocabulary.ofSpelling?_eq_some_iff.mpr rfl
  simp [taggedFields, h.type, ht]

lemma itemsJson_of_forall₂ {α : Type} {R : Json → α → Prop} {f : α → Outcome Json}
    {g : Json → Json} {js : List Json} {as : List α} (h : List.Forall₂ R js as)
    (hf : ∀ j a, R j a → f a = .ok (g j)) : itemsJson f as = .ok (.array (js.map g)) := by
  refine itemsJson_eq_ok.mpr ⟨_, ?_, rfl⟩
  exact List.forall₂_map_right_iff.mpr (h.imp hf).flip

lemma map_eq_of_forall₂ {α : Type} {R : Json → α → Prop} {f : α → Json} {g : Json → Json}
    {js : List Json} {as : List α} (h : List.Forall₂ R js as) (hf : ∀ j a, R j a → f a = g j) :
    as.map f = js.map g := by
  induction h with
  | nil => rfl
  | cons ha _ ih => rw [List.map_cons, List.map_cons, hf _ _ ha, ih]

variable {config : Config} {j : Json}

/-! ### Denoted nodes are written in normal form -/

attribute [local simp] Json.normalObject NodeTag.fields constantFields Members.normal? omittedFields
  suppliedFields tagField fieldJson childrenField childrenJson

lemma NormalInput.toJson_eq_normalForm {i : NormalInput} (h : i.DenotedBy config j) :
    i.toJson = normalForm j := by
  obtain ⟨ms, rfl, htag, hi⟩ := h
  simp [toJson, normalForm, htag.type, hi.index, hi.children.getD_present?]

lemma Input.toJson_eq_normalForm {i : Input} (h : i.DenotedBy config j) :
    i.toJson = .ok (normalForm j) := by
  obtain ⟨ms, rfl, htag, hi⟩ := h
  have hfields := Json.taggedFields_of_hasTag htag
  -- the tag tells which fields the normal form has
  cases i with
  | constant name | label name =>
    obtain ⟨n, hget, hn⟩ := hi
    simp [toJson, normalForm, hfields, tag, htag.type, hget, hn]
  | normal n =>
    have hn : n.toJson = NormalInput.normalForm (.object ms) :=
      NormalInput.toJson_eq_normalForm ⟨ms, rfl, htag, hi⟩
    rw [toJson, hn, normalForm, hfields]
    rfl
  | var name cs =>
    obtain ⟨⟨n, hget, hn⟩, hcs⟩ := hi
    simp [toJson, normalForm, hfields, tag, htag.type, hget, hn, hcs.getD_present?]
  | self cs =>
    have hcs : HasChildren ms cs := hi
    simp [toJson, normalForm, hfields, tag, htag.type, hcs.getD_present?]

lemma Call.toJson_eq_normalForm {c : Call} (h : c.DenotedBy config j) :
    c.toJson = .ok (normalForm j) := by
  obtain ⟨ms, rfl, htag, hc⟩ := h
  have hfields := Json.taggedFields_of_hasTag htag
  cases c with
  | atomic name | compiled name =>
    obtain ⟨n, hget, hn⟩ := hc
    obtain ⟨cs, -, rfl⟩ := nameJson_eq_ok.mp hn
    simp [toJson, normalForm, hfields, tag, htag.type, hget, hn]
  | input i =>
    obtain ⟨j, hget, hi⟩ := hc
    simp [toJson, normalForm, hfields, tag, htag.type, hget, NormalInput.toJson_eq_normalForm hi]
  | var => simp [toJson, normalForm, hfields, tag, htag.type]

lemma Proposition.toJson_eq_normalForm {p : Proposition} (h : p.DenotedBy config j) :
    p.toJson = .ok (normalForm j) := by
  obtain ⟨ms, rfl, htag, ⟨call, hcall, hc⟩, ⟨js, hinputs, hjs⟩, hflag⟩ := h
  refine toJson_eq_ok.mpr ⟨_, _, Call.toJson_eq_normalForm hc,
    itemsJson_of_forall₂ hjs fun _ _ => Input.toJson_eq_normalForm, ?_⟩
  cases hp : p.isCompiled with
  | none =>
    rw [hp] at hflag
    simp [normalForm, htag.type, hcall, hinputs, Members.present?_of_lacks hflag]
  | some b =>
    rw [hp] at hflag
    obtain ⟨_, hget, rfl⟩ := hflag
    simp [normalForm, htag.type, hcall, hinputs, Members.present?_of_get? hget]

lemma Entry.toJson_eq_normalForm {e : Entry} (h : e.DenotedBy config j) :
    e.toJson = .ok (Proposition.normalForm j) := by
  cases e with
  | proposition p => exact Proposition.toJson_eq_normalForm h
  | placeholder name =>
    obtain ⟨cs, -, rfl⟩ := nameJson_eq_ok.mp h
    exact h

lemma Contract.toJson_eq_normalForm {c : Contract} (h : c.DenotedBy config j) :
    c.toJson = .ok (normalForm j) := by
  obtain ⟨ms, rfl, htag, ⟨name, hname, hn⟩, ⟨origin, horigin, ho⟩, hconnective, ⟨ds, hdefs, hds⟩,
    ⟨es, hinputs, hes⟩, hproperties⟩ := h
  have hdefs' : itemsJson nameJson c.inputDefs = .ok (.array (ds.map id)) :=
    itemsJson_of_forall₂ hds fun _ _ h => h
  have hproperties' : ((Members.present? ms "propertyInputs").getD (.array [])).mapItems
      NormalInput.normalForm = .array (c.propertyInputs.map NormalInput.toJson) := by
    rcases hproperties with ⟨hlacks, hnil⟩ | ⟨is, hget, his⟩
    · rw [Members.present?_of_lacks hlacks, hnil]
      rfl
    · rw [Members.present?_of_get? hget nofun, Option.getD_some, Json.mapItems_array,
        map_eq_of_forall₂ his fun _ _ => NormalInput.toJson_eq_normalForm]
  have hspelling : Vocabulary.spelling c.connective = c.connective.name := rfl
  refine toJson_eq_ok.mpr ⟨_, _, _, _, hn, ho, hdefs',
    itemsJson_of_forall₂ hes fun _ _ => Entry.toJson_eq_normalForm, ?_⟩
  simp [normalForm, htag.type, hname, horigin, hconnective, hspelling, hdefs, hinputs, hproperties']

lemma Constant.toJson_eq_normalForm {c : Constant} (h : c.DenotedBy config j) :
    c.toJson = .ok (normalForm j) := by
  obtain ⟨ms, rfl, -, hkind, n, hget, hn⟩ := h
  simp [toJson, normalForm, hkind, hget, hn]

lemma Predicate.toJson_eq_normalForm {p : Predicate} (h : p.DenotedBy config j) :
    p.toJson = .ok (normalForm j) := by
  obtain ⟨ms, rfl, htag, ⟨name, hname, hn⟩, ⟨ds, hdefs, hds⟩, ⟨cs, hcontracts, hcs⟩, hconstants,
    ⟨entry, hentry, he⟩⟩ := h
  have hdefs' : itemsJson nameJson p.inputDefs = .ok (.array (ds.map id)) :=
    itemsJson_of_forall₂ hds fun _ _ h => h
  have hcontracts' := itemsJson_of_forall₂ hcs fun _ _ => Contract.toJson_eq_normalForm
  cases hp : p.constants with
  | none =>
    rw [hp] at hconstants
    refine toJson_eq_ok.mpr ⟨_, _, _, none, _, hn, hdefs', hcontracts', by rw [hp]; rfl, he, ?_⟩
    simp [normalForm, htag.type, hname, hdefs, hcontracts, hentry,
      Members.present?_of_lacks hconstants]
  | some items =>
    rw [hp] at hconstants
    obtain ⟨_, hget, js, rfl, hjs⟩ := hconstants
    have hitems := itemsJson_of_forall₂ hjs fun _ _ => Constant.toJson_eq_normalForm
    refine toJson_eq_ok.mpr ⟨_, _, _, some _, _, hn, hdefs', hcontracts',
      by rw [hp, Option.mapM_some, hitems]; rfl, he, ?_⟩
    simp [normalForm, htag.type, hname, hdefs, hcontracts, hentry, Members.present?_of_get? hget]

end Clausal
