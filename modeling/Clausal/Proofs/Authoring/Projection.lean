import Clausal.Proofs.Authoring.Denoting
import Clausal.Proofs.Authoring.Writable
import Clausal.Proofs.Json.Tidy
import Mathlib.Data.List.Nodup

/-!
# What is written as the authoring form of a node

The object that a node is written as denotes the node under every configuration. So it is read as
the node again, provided that the node is well formed.
-/

namespace Clausal

open Members (required optional get? Has HasName HasItems HasOptionalItems HasOptional HasChildren
  HasTag)

/-! ### Written fields -/

namespace Members

variable {ms : Members} {name : String}

@[simp] lemma get?_tagField_cons {t : NodeTag} : get? (tagField t :: ms) name =
    if name = "type" then some (.string (Text.ofString t.name)) else get? ms name :=
  get?_cons

@[simp] lemma get?_childrenField_cons {cs : List Int8} : get? (childrenField cs :: ms) name =
    if name = "children" then some (childrenJson cs) else get? ms name :=
  get?_cons

@[simp] lemma fst_tagField (t : NodeTag) : (tagField t).1 = Text.ofString "type" := rfl

@[simp] lemma fst_childrenField (cs : List Int8) :
    (childrenField cs).1 = Text.ofString "children" := rfl

/-- Members that start with a tag and are all fields of the nodes with that tag. -/
lemma hasTag_cons {config : Config} {t : NodeTag}
    (h : ∀ m ∈ tagField t :: ms, m.1 ∈ t.fields.map Text.ofString) :
    HasTag config (tagField t :: ms) t where
  type := by simp
  fields := checkFields_eq_ok h

end Members

lemma exists_of_itemsJson {α : Type} {f : α → Outcome Json} {R : Json → α → Prop} {as : List α}
    {j : Json} (h : itemsJson f as = .ok j) (hR : ∀ a j, f a = .ok j → R j a) :
    ∃ js, j = .array js ∧ List.Forall₂ R js as := by
  obtain ⟨js, hjs, rfl⟩ := itemsJson_eq_ok.mp h
  exact ⟨js, rfl, (hjs.imp hR).flip⟩

variable {config : Config} {j : Json}

/-! ### Inputs and calls -/

lemma NormalInput.denotedBy_toJson (i : NormalInput) : i.DenotedBy config i.toJson :=
  ⟨_, rfl, Members.hasTag_cons (by simp [NodeTag.fields]), by simp, .inr (by simp)⟩

lemma Input.denotedBy_of_toJson {i : Input} (h : i.toJson = .ok j) : i.DenotedBy config j := by
  -- names are the only parts whose projection can fail
  cases i with
  | constant name | label name =>
    simp only [toJson, Outcome.bind_eq_ok, fieldJson_eq_ok, Outcome.pure_eq_ok] at h
    obtain ⟨_, ⟨n, hn, rfl⟩, rfl⟩ := h
    exact ⟨_, rfl, Members.hasTag_cons (by simp [NodeTag.fields]), n, by simp, hn⟩
  | normal i =>
    cases h
    exact i.denotedBy_toJson
  | var name cs =>
    simp only [toJson, Outcome.bind_eq_ok, fieldJson_eq_ok, Outcome.pure_eq_ok] at h
    obtain ⟨_, ⟨n, hn, rfl⟩, rfl⟩ := h
    exact ⟨_, rfl, Members.hasTag_cons (by simp [NodeTag.fields]), ⟨n, by simp, hn⟩,
      .inr (by simp)⟩
  | self cs =>
    cases h
    exact ⟨_, rfl, Members.hasTag_cons (by simp [NodeTag.fields]), .inr (by simp)⟩

lemma Call.denotedBy_of_toJson {c : Call} (h : c.toJson = .ok j) : c.DenotedBy config j := by
  cases c with
  | atomic name | compiled name =>
    simp only [toJson, Outcome.bind_eq_ok, fieldJson_eq_ok, Outcome.pure_eq_ok] at h
    obtain ⟨_, ⟨n, hn, rfl⟩, rfl⟩ := h
    exact ⟨_, rfl, Members.hasTag_cons (by simp [tag, NodeTag.fields]), n, by simp, hn⟩
  | input i =>
    cases h
    exact ⟨_, rfl, Members.hasTag_cons (by simp [tag, NodeTag.fields]), _, by simp,
      i.denotedBy_toJson⟩
  | var =>
    cases h
    exact ⟨_, rfl, Members.hasTag_cons (by simp [tag, NodeTag.fields]), trivial⟩

/-! ### Propositions and entries -/

lemma Proposition.toJson_eq_ok {p : Proposition} : p.toJson = .ok j ↔
    ∃ call inputs, p.call.toJson = .ok call ∧ itemsJson Input.toJson p.inputs = .ok inputs ∧
      j = .object ([tagField .atomicProposition, (Text.ofString "predicate", call),
        (Text.ofString "inputs", inputs)] ++
        (p.isCompiled.map fun b => (Text.ofString "isCompiled", Json.bool b)).toList) := by
  simp only [toJson, Outcome.bind_eq_ok, fieldJson_eq_ok, Outcome.pure_eq_ok]
  grind

lemma Proposition.denotedBy_of_toJson {p : Proposition} (h : p.toJson = .ok j) :
    p.DenotedBy config j := by
  obtain ⟨call, inputs, hcall, hinputs, rfl⟩ := toJson_eq_ok.mp h
  obtain ⟨js, rfl, hjs⟩ := exists_of_itemsJson hinputs fun _ _ => Input.denotedBy_of_toJson
  refine ⟨_, rfl, Members.hasTag_cons ?_, ⟨call, by simp, Call.denotedBy_of_toJson hcall⟩,
    ⟨js, by simp, hjs⟩, ?_⟩
  · cases p.isCompiled <;> simp [NodeTag.fields]
  · cases p.isCompiled with
    | none => exact .inl (by simp)
    | some b => exact ⟨_, by simp, rfl⟩

lemma Entry.denotedBy_of_toJson {e : Entry} (h : e.toJson = .ok j) : e.DenotedBy config j := by
  cases e with
  | proposition p => exact Proposition.denotedBy_of_toJson h
  | placeholder name => exact h

/-! ### Contracts, constants and predicates -/

lemma Contract.toJson_eq_ok {c : Contract} : c.toJson = .ok j ↔
    ∃ name origin defs inputs, nameJson c.name = .ok name ∧ nameJson c.origin = .ok origin ∧
      itemsJson nameJson c.inputDefs = .ok defs ∧ itemsJson Entry.toJson c.inputs = .ok inputs ∧
      j = .object [tagField .intermediateCompiledPredicate, (Text.ofString "name", name),
        (Text.ofString "originalPredicateName", origin),
        (Text.ofString "connective", .string (Text.ofString c.connective.name)),
        (Text.ofString "inputDefs", defs), (Text.ofString "inputs", inputs),
        (Text.ofString "propertyInputs", .array (c.propertyInputs.map NormalInput.toJson))] := by
  simp only [toJson, Outcome.bind_eq_ok, fieldJson_eq_ok, Outcome.pure_eq_ok]
  grind

lemma Contract.denotedBy_of_toJson {c : Contract} (h : c.toJson = .ok j) :
    c.DenotedBy config j := by
  obtain ⟨name, origin, defs, inputs, hname, horigin, hdefs, hinputs, rfl⟩ := toJson_eq_ok.mp h
  obtain ⟨ds, rfl, hds⟩ := exists_of_itemsJson hdefs fun _ _ h => h
  obtain ⟨es, rfl, hes⟩ := exists_of_itemsJson hinputs fun _ _ => Entry.denotedBy_of_toJson
  have hproperties : List.Forall₂ (NormalInput.DenotedBy config)
      (c.propertyInputs.map NormalInput.toJson) c.propertyInputs :=
    List.forall₂_map_left_iff.mpr (List.forall₂_same.mpr fun i _ => i.denotedBy_toJson)
  exact ⟨_, rfl, Members.hasTag_cons (by simp [NodeTag.fields]), ⟨name, by simp, hname⟩,
    ⟨origin, by simp, horigin⟩, by simp; rfl, ⟨ds, by simp, hds⟩, ⟨es, by simp, hes⟩,
    .inr ⟨_, by simp, hproperties⟩⟩

lemma Constant.toJson_eq_ok {c : Constant} : c.toJson = .ok j ↔
    ∃ name, nameJson c.name = .ok name ∧
      j = .object [(Text.ofString "varType", .string (Text.ofString (Vocabulary.spelling c.kind))),
        (Text.ofString "name", name)] := by
  simp only [toJson, Outcome.bind_eq_ok, fieldJson_eq_ok, Outcome.pure_eq_ok]
  grind

lemma Constant.denotedBy_of_toJson {c : Constant} (h : c.toJson = .ok j) :
    c.DenotedBy config j := by
  obtain ⟨name, hname, rfl⟩ := toJson_eq_ok.mp h
  exact ⟨_, rfl, Members.checkFields_eq_ok (by simp [constantFields]), by simp, name, by simp,
    hname⟩

lemma Predicate.toJson_eq_ok {p : Predicate} : p.toJson = .ok j ↔
    ∃ name defs contracts constants entry, nameJson p.name = .ok name ∧
      itemsJson nameJson p.inputDefs = .ok defs ∧
      itemsJson Contract.toJson p.contracts = .ok contracts ∧
      p.constants.mapM (itemsJson Constant.toJson) = .ok constants ∧
      nameJson p.entryPoint = .ok entry ∧
      j = .object ([tagField .compiledPredicate, (Text.ofString "name", name),
        (Text.ofString "inputDefs", defs), (Text.ofString "contracts", contracts)] ++
        (constants.map fun cs => (Text.ofString "constants", cs)).toList ++
        [(Text.ofString "entryPoint", entry)]) := by
  have hconstants (o : Option (Text × Json)) :
      (p.constants.mapM fun cs => fieldJson "constants" (itemsJson Constant.toJson cs)) = .ok o ↔
        ∃ constants, p.constants.mapM (itemsJson Constant.toJson) = .ok constants ∧
          o = constants.map fun cs => (Text.ofString "constants", cs) := by
    cases p.constants <;> simp [fieldJson_eq_ok]
  simp only [toJson, Outcome.bind_eq_ok, fieldJson_eq_ok, hconstants, Outcome.pure_eq_ok]
  grind

lemma Predicate.denotedBy_of_toJson {p : Predicate} (h : p.toJson = .ok j) :
    p.DenotedBy config j := by
  obtain ⟨name, defs, contracts, constants, entry, hname, hdefs, hcontracts, hconstants, hentry,
    rfl⟩ := toJson_eq_ok.mp h
  obtain ⟨ds, rfl, hds⟩ := exists_of_itemsJson hdefs fun _ _ h => h
  obtain ⟨cs, rfl, hcs⟩ := exists_of_itemsJson hcontracts fun _ _ => Contract.denotedBy_of_toJson
  refine ⟨_, rfl, Members.hasTag_cons ?_, ⟨name, by simp, hname⟩, ⟨ds, by simp, hds⟩,
    ⟨cs, by simp, hcs⟩, ?_, ⟨entry, ?_, hentry⟩⟩
  · cases constants <;> simp [NodeTag.fields]
  · cases hp : p.constants with
    | none =>
      simp only [hp, Option.mapM_none, Outcome.pure_eq_ok] at hconstants
      exact .inl (by simp [hconstants])
    | some items =>
      simp only [hp, Option.mapM_some, Outcome.map_eq_ok] at hconstants
      obtain ⟨items, hitems, rfl⟩ := hconstants
      exact ⟨items, by simp, exists_of_itemsJson hitems fun _ _ => Constant.denotedBy_of_toJson⟩
  · cases constants <;> simp

/-! ### Written values are tidy -/

lemma small_natAbs_lt {i : Int} (h : i.natAbs < 256) : i.natAbs < integerLimit :=
  Nat.lt_trans h (Nat.lt_trans (by decide) thousand_lt_integerLimit)

namespace Json.Tidy

variable {n : Nat}

lemma ofString (s : String) : Tidy (n + 1) (.string (Text.ofString s)) := .string s.toList

lemma of_nameJson {name : Bytes} (h : nameJson name = .ok j) : Tidy (n + 1) j := by
  obtain ⟨cs, -, rfl⟩ := nameJson_eq_ok.mp h
  exact .string cs

lemma childrenJson (cs : List Int8) : Tidy (n + 2) (childrenJson cs) := by
  refine .array (List.forall_mem_map.mpr fun s _ => .int (small_natAbs_lt ?_))
  have hlow : -128 ≤ s.toInt := s.le_toInt
  have hhigh : s.toInt ≤ 127 := s.toInt_le
  omega

lemma of_itemsJson {α : Type} {f : α → Outcome Json} {as : List α}
    (h : itemsJson f as = .ok j) (hf : ∀ a j, f a = .ok j → Tidy n j) : Tidy (n + 1) j := by
  obtain ⟨js, rfl, hjs⟩ := exists_of_itemsJson (R := fun j _ => Tidy n j ∧ True) h
    fun a j hj => ⟨hf a j hj, trivial⟩
  exact .array ((List.forall₂_and_left _ _).mp hjs).1

/-- An object with the given fields, all of them different. -/
lemma object_of_fields {ms : Members} (fields : List String)
    (hfields : ms.map Prod.fst = fields.map Text.ofString) (hnodup : fields.Nodup)
    (values : ∀ m ∈ ms, Tidy n m.2) : Tidy (n + 1) (.object ms) := by
  refine .object (fun m hm => ?_) ?_ values
  · have hmem : m.1 ∈ fields.map Text.ofString := hfields ▸ List.mem_map_of_mem hm
    obtain ⟨s, -, hs⟩ := List.mem_map.mp hmem
    exact ⟨s.toList, hs.symm⟩
  · rw [hfields]
    exact List.Nodup.map (fun _ _ => Text.ofString_inj.mp) hnodup

end Json.Tidy

open Json (Tidy)

variable {n : Nat}

lemma NormalInput.tidy_toJson (i : NormalInput) : Tidy (n + 3) i.toJson := by
  refine .object_of_fields ["type", "inputIndex", "children"] rfl (by decide) ?_
  have hindex : (i.index.toNat : Int).natAbs < integerLimit :=
    small_natAbs_lt (by simpa using i.index.toNat_lt)
  simp only [List.forall_mem_cons]
  exact ⟨.ofString _, .int hindex, .childrenJson _, List.forall_mem_nil _⟩

lemma Input.tidy_of_toJson {i : Input} (h : i.toJson = .ok j) : Tidy (n + 3) j := by
  cases i with
  | constant name | label name =>
    simp only [toJson, Outcome.bind_eq_ok, fieldJson_eq_ok, Outcome.pure_eq_ok] at h
    obtain ⟨_, ⟨n, hn, rfl⟩, rfl⟩ := h
    refine .object_of_fields ["type", _] rfl (by decide) ?_
    simp only [List.forall_mem_cons]
    exact ⟨.ofString _, .of_nameJson hn, List.forall_mem_nil _⟩
  | normal i =>
    cases h
    exact i.tidy_toJson
  | var name cs =>
    simp only [toJson, Outcome.bind_eq_ok, fieldJson_eq_ok, Outcome.pure_eq_ok] at h
    obtain ⟨_, ⟨n, hn, rfl⟩, rfl⟩ := h
    refine .object_of_fields ["type", "placeholder", "children"] rfl (by decide) ?_
    simp only [List.forall_mem_cons]
    exact ⟨.ofString _, .of_nameJson hn, .childrenJson _, List.forall_mem_nil _⟩
  | self cs =>
    cases h
    refine .object_of_fields ["type", "children"] rfl (by decide) ?_
    simp only [List.forall_mem_cons]
    exact ⟨.ofString _, .childrenJson _, List.forall_mem_nil _⟩

lemma Call.tidy_of_toJson {c : Call} (h : c.toJson = .ok j) : Tidy (n + 4) j := by
  cases c with
  | atomic name | compiled name =>
    simp only [toJson, Outcome.bind_eq_ok, fieldJson_eq_ok, Outcome.pure_eq_ok] at h
    obtain ⟨_, ⟨n, hn, rfl⟩, rfl⟩ := h
    refine .object_of_fields ["type", "source"] rfl (by decide) ?_
    simp only [List.forall_mem_cons]
    exact ⟨.ofString _, .of_nameJson hn, List.forall_mem_nil _⟩
  | input i =>
    cases h
    refine .object_of_fields ["type", "source"] rfl (by decide) ?_
    simp only [List.forall_mem_cons]
    exact ⟨.ofString _, i.tidy_toJson, List.forall_mem_nil _⟩
  | var =>
    cases h
    refine .object_of_fields ["type"] rfl (by decide) ?_
    simp only [List.forall_mem_cons]
    exact ⟨.ofString _, List.forall_mem_nil _⟩

lemma Proposition.tidy_of_toJson {p : Proposition} (h : p.toJson = .ok j) : Tidy (n + 5) j := by
  obtain ⟨call, inputs, hcall, hinputs, rfl⟩ := toJson_eq_ok.mp h
  have hcall : Tidy (n + 4) call := Call.tidy_of_toJson hcall
  have hinputs : Tidy (n + 4) inputs := .of_itemsJson hinputs fun _ _ => Input.tidy_of_toJson
  -- one level for the object, on top of the deepest part; with the flag there is one field more
  cases p.isCompiled with
  | none =>
    refine .object_of_fields ["type", "predicate", "inputs"] rfl (by decide) ?_
    simp only [Option.map_none, Option.toList_none, List.append_nil, List.forall_mem_cons]
    exact ⟨.ofString _, hcall, hinputs, List.forall_mem_nil _⟩
  | some b =>
    refine .object_of_fields ["type", "predicate", "inputs", "isCompiled"] rfl (by decide) ?_
    simp only [Option.map_some, Option.toList_some, List.cons_append, List.nil_append,
      List.forall_mem_cons]
    exact ⟨.ofString _, hcall, hinputs, .bool b, List.forall_mem_nil _⟩

lemma Entry.tidy_of_toJson {e : Entry} (h : e.toJson = .ok j) : Tidy (n + 5) j := by
  cases e with
  | proposition p => exact Proposition.tidy_of_toJson h
  | placeholder name => exact .of_nameJson h

lemma Contract.tidy_of_toJson {c : Contract} (h : c.toJson = .ok j) : Tidy (n + 7) j := by
  obtain ⟨name, origin, defs, inputs, hname, horigin, hdefs, hinputs, rfl⟩ := toJson_eq_ok.mp h
  have hdefs : Tidy (n + 6) defs := .of_itemsJson hdefs fun _ _ => .of_nameJson
  have hinputs : Tidy (n + 6) inputs := .of_itemsJson hinputs fun _ _ => Entry.tidy_of_toJson
  have hproperties : Tidy (n + 6) (.array (c.propertyInputs.map NormalInput.toJson)) :=
    .array (List.forall_mem_map.mpr fun i _ => i.tidy_toJson)
  refine .object_of_fields ["type", "name", "originalPredicateName", "connective", "inputDefs",
    "inputs", "propertyInputs"] rfl (by decide) ?_
  simp only [List.forall_mem_cons]
  exact ⟨.ofString _, .of_nameJson hname, .of_nameJson horigin, .ofString _, hdefs, hinputs,
    hproperties, List.forall_mem_nil _⟩

lemma Constant.tidy_of_toJson {c : Constant} (h : c.toJson = .ok j) : Tidy (n + 2) j := by
  obtain ⟨name, hname, rfl⟩ := toJson_eq_ok.mp h
  refine .object_of_fields ["varType", "name"] rfl (by decide) ?_
  simp only [List.forall_mem_cons]
  exact ⟨.ofString _, .of_nameJson hname, List.forall_mem_nil _⟩

lemma Predicate.tidy_of_toJson {p : Predicate} (h : p.toJson = .ok j) : Tidy (n + 9) j := by
  obtain ⟨name, defs, contracts, constants, entry, hname, hdefs, hcontracts, hconstants, hentry,
    rfl⟩ := toJson_eq_ok.mp h
  have hdefs : Tidy (n + 8) defs := .of_itemsJson hdefs fun _ _ => .of_nameJson
  have hcontracts : Tidy (n + 8) contracts :=
    .of_itemsJson hcontracts fun _ _ => Contract.tidy_of_toJson
  cases hp : p.constants with
  | none =>
    simp only [hp, Option.mapM_none, Outcome.pure_eq_ok] at hconstants
    subst hconstants
    refine .object_of_fields ["type", "name", "inputDefs", "contracts", "entryPoint"] rfl
      (by decide) ?_
    simp only [Option.map_none, Option.toList_none, List.append_nil, List.cons_append,
      List.nil_append, List.forall_mem_cons]
    exact ⟨.ofString _, .of_nameJson hname, hdefs, hcontracts, .of_nameJson hentry,
      List.forall_mem_nil _⟩
  | some items =>
    simp only [hp, Option.mapM_some, Outcome.map_eq_ok] at hconstants
    obtain ⟨items, hitems, rfl⟩ := hconstants
    have hitems : Tidy (n + 8) items := .of_itemsJson hitems fun _ _ => Constant.tidy_of_toJson
    refine .object_of_fields ["type", "name", "inputDefs", "contracts", "constants",
      "entryPoint"] rfl (by decide) ?_
    simp only [Option.map_some, Option.toList_some, List.cons_append, List.nil_append,
      List.forall_mem_cons]
    exact ⟨.ofString _, .of_nameJson hname, hdefs, hcontracts, hitems, .of_nameJson hentry,
      List.forall_mem_nil _⟩

end Clausal
