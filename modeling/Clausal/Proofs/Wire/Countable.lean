import Clausal.Proofs.Wire.Compact
import Clausal.Wire.Slot

/-!
# Nodes with a binary form

Byte strings and sequences have their lengths in front, so a node has a binary form exactly when a
compact integer can count each of its parts.
-/

namespace Clausal

namespace Wire

variable {α : Type}

/-- A list that a compact integer can count. -/
def Countable (as : List α) : Prop := as.length < Compact.limit

/-- A list of names that can be counted, each and together. -/
def CountableNames (names : List Bytes) : Prop :=
  Countable names ∧ ∀ name ∈ names, Countable name

lemma exists_blob_iff {a : Bytes} : (∃ bs, blob a = .ok bs) ↔ Countable a := by
  rw [Countable, ← Compact.exists_encode_iff]
  simp [blob]

lemma exists_sequence_iff (encode : α → Outcome Bytes) (as : List α) :
    (∃ bs, sequence encode as = .ok bs) ↔ Countable as ∧ ∀ a ∈ as, ∃ bs, encode a = .ok bs := by
  rw [Countable, ← Compact.exists_encode_iff, ← Outcome.exists_mapM_iff]
  simp [sequence]

lemma exists_names_iff {names : List Bytes} :
    (∃ bs, sequence blob names = .ok bs) ↔ CountableNames names := by
  rw [exists_sequence_iff, CountableNames]
  simp only [exists_blob_iff]

lemma exists_selectors_iff {cs : List Int8} : (∃ bs, selectors cs = .ok bs) ↔ Countable cs := by
  rw [selectors, exists_sequence_iff]
  simp

end Wire

/-! ### Classes of nodes -/

/-- A reference whose descent path can be counted. -/
def NormalInput.Countable (i : NormalInput) : Prop := Wire.Countable i.children

/-- An input whose name and descent path can be counted. -/
def Input.Countable : Input → Prop
  | constant name => Wire.Countable name
  | label text => Wire.Countable text
  | normal i => i.Countable
  | var placeholder children => Wire.Countable placeholder ∧ Wire.Countable children
  | self children => Wire.Countable children

/-- A call whose source can be counted. -/
def Call.Countable : Call → Prop
  | atomic source | compiled source => Wire.Countable source
  | input source => source.Countable
  | var => True

/-- A proposition whose parts can be counted. -/
structure Proposition.Countable (p : Proposition) : Prop where
  call : p.call.Countable
  length : Wire.Countable p.inputs
  inputs : ∀ i ∈ p.inputs, i.Countable

/-- An entry whose parts can be counted. -/
def Entry.Countable : Entry → Prop
  | proposition p => p.Countable
  | placeholder name => Wire.Countable name

/-- A contract whose parts can be counted. -/
structure Contract.Countable (c : Contract) : Prop where
  name : Wire.Countable c.name
  origin : Wire.Countable c.origin
  inputDefs : Wire.CountableNames c.inputDefs
  length : Wire.Countable c.inputs
  inputs : ∀ e ∈ c.inputs, e.Countable
  propertyLength : Wire.Countable c.propertyInputs
  propertyInputs : ∀ i ∈ c.propertyInputs, i.Countable

/-- A constant whose name can be counted. -/
def Constant.Countable (c : Constant) : Prop := Wire.Countable c.name

/-- A predicate whose parts can be counted. -/
structure Predicate.Countable (p : Predicate) : Prop where
  name : Wire.Countable p.name
  inputDefs : Wire.CountableNames p.inputDefs
  length : Wire.Countable p.contracts
  contracts : ∀ c ∈ p.contracts, c.Countable
  constantsLength : ∀ cs ∈ p.constants, Wire.Countable cs
  constants : ∀ cs ∈ p.constants, ∀ c ∈ cs, c.Countable
  entryPoint : Wire.Countable p.entryPoint

/-! ### Countable nodes are those with a binary form -/

lemma NormalInput.exists_encode_iff {i : NormalInput} :
    (∃ bs, i.encode = .ok bs) ↔ i.Countable := by
  rw [Countable, ← Wire.exists_selectors_iff]
  simp [encode]

lemma Input.exists_encode_iff {i : Input} : (∃ bs, i.encode = .ok bs) ↔ i.Countable := by
  cases i with
  | constant name =>
    rw [Countable, ← Wire.exists_blob_iff]
    simp [encode, encodeStruct]
  | label text =>
    rw [Countable, ← Wire.exists_blob_iff]
    simp [encode, encodeStruct]
  | normal i =>
    rw [Countable, ← NormalInput.exists_encode_iff]
    simp [encode, encodeStruct]
  | var placeholder children =>
    rw [Countable, ← Wire.exists_blob_iff, ← Wire.exists_selectors_iff]
    simp [encode, encodeStruct]
  | self children =>
    rw [Countable, ← Wire.exists_selectors_iff]
    simp [encode, encodeStruct]

lemma Call.exists_encode_iff {c : Call} : (∃ bs, c.encode = .ok bs) ↔ c.Countable := by
  cases c with
  | atomic source =>
    rw [Countable, ← Wire.exists_blob_iff]
    simp [encode, encodeSource]
  | input source =>
    rw [Countable, ← NormalInput.exists_encode_iff]
    simp [encode, encodeSource]
  | var => simp [Countable, encode, encodeSource]
  | compiled source =>
    rw [Countable, ← Wire.exists_blob_iff]
    simp [encode, encodeSource]

lemma Proposition.exists_encode_iff {p : Proposition} :
    (∃ bs, p.encode = .ok bs) ↔ p.Countable := by
  have hinputs := Wire.exists_sequence_iff Input.encode p.inputs
  simp only [Input.exists_encode_iff] at hinputs
  have hencode : (∃ bs, p.encode = .ok bs) ↔
      (∃ bs, p.call.encode = .ok bs) ∧ ∃ bs, Wire.sequence Input.encode p.inputs = .ok bs := by
    simp [encode]
  rw [hencode, hinputs, Call.exists_encode_iff]
  exact ⟨fun h => ⟨h.1, h.2.1, h.2.2⟩, fun h => ⟨h.call, h.length, h.inputs⟩⟩

lemma Entry.exists_encode_iff {e : Entry} : (∃ bs, e.encode = .ok bs) ↔ e.Countable := by
  cases e with
  | proposition p =>
    rw [Countable, ← Proposition.exists_encode_iff]
    simp [encode]
  | placeholder name =>
    rw [Countable, ← Wire.exists_blob_iff]
    simp [encode]

lemma Contract.exists_encode_iff {c : Contract} : (∃ bs, c.encode = .ok bs) ↔ c.Countable := by
  have hinputs := Wire.exists_sequence_iff Entry.encode c.inputs
  have hproperties := Wire.exists_sequence_iff NormalInput.encode c.propertyInputs
  simp only [Entry.exists_encode_iff, NormalInput.exists_encode_iff] at hinputs hproperties
  have hencode : (∃ bs, c.encode = .ok bs) ↔
      (∃ bs, Wire.blob c.name = .ok bs) ∧ (∃ bs, Wire.blob c.origin = .ok bs) ∧
      (∃ bs, Wire.sequence Wire.blob c.inputDefs = .ok bs) ∧
      (∃ bs, Wire.sequence Entry.encode c.inputs = .ok bs) ∧
      ∃ bs, Wire.sequence NormalInput.encode c.propertyInputs = .ok bs := by
    simp [encode]
  rw [hencode, Wire.exists_blob_iff, Wire.exists_blob_iff, Wire.exists_names_iff, hinputs,
    hproperties]
  constructor
  · rintro ⟨hname, horigin, hdefs, ⟨hlength, hinputs⟩, hplength, hproperties⟩
    exact ⟨hname, horigin, hdefs, hlength, hinputs, hplength, hproperties⟩
  · intro h
    exact ⟨h.name, h.origin, h.inputDefs, ⟨h.length, h.inputs⟩, h.propertyLength,
      h.propertyInputs⟩

lemma Constant.exists_encode_iff {c : Constant} : (∃ bs, c.encode = .ok bs) ↔ c.Countable := by
  rw [Countable, ← Wire.exists_blob_iff]
  simp [encode]

lemma Constant.exists_encodeAll?_iff {constants : Option (List Constant)} :
    (∃ bs, encodeAll? constants = .ok bs) ↔
      (∀ cs ∈ constants, Wire.Countable cs) ∧ ∀ cs ∈ constants, ∀ c ∈ cs, c.Countable := by
  cases constants with
  | none => simp [encodeAll?]
  | some cs =>
    have hcs := Wire.exists_sequence_iff Constant.encode cs
    simp only [exists_encode_iff] at hcs
    have hencode : (∃ bs, encodeAll? (some cs) = .ok bs) ↔
        ∃ bs, Wire.sequence Constant.encode cs = .ok bs := by
      simp only [encodeAll?, Outcome.bind_eq_ok, Outcome.pure_eq_ok]
      constructor
      · rintro ⟨_, bs, h, -⟩
        exact ⟨bs, h⟩
      · rintro ⟨bs, h⟩
        exact ⟨_, bs, h, rfl⟩
    rw [hencode, hcs]
    simp

lemma Predicate.exists_encode_iff {p : Predicate} : (∃ bs, p.encode = .ok bs) ↔ p.Countable := by
  have hcontracts := Wire.exists_sequence_iff Contract.encode p.contracts
  simp only [Contract.exists_encode_iff] at hcontracts
  have hencode : (∃ bs, p.encode = .ok bs) ↔
      (∃ bs, Wire.blob p.name = .ok bs) ∧
      (∃ bs, Wire.sequence Wire.blob p.inputDefs = .ok bs) ∧
      (∃ bs, Wire.sequence Contract.encode p.contracts = .ok bs) ∧
      (∃ bs, Constant.encodeAll? p.constants = .ok bs) ∧
      ∃ bs, Wire.blob p.entryPoint = .ok bs := by
    simp [encode]
  rw [hencode, Wire.exists_blob_iff, Wire.exists_names_iff, hcontracts,
    Constant.exists_encodeAll?_iff, Wire.exists_blob_iff]
  constructor
  · rintro ⟨hname, hdefs, ⟨hlength, hcontracts⟩, ⟨hclength, hconstants⟩, hentry⟩
    exact ⟨hname, hdefs, hlength, hcontracts, hclength, hconstants, hentry⟩
  · intro h
    exact ⟨h.name, h.inputDefs, ⟨h.length, h.contracts⟩, ⟨h.constantsLength, h.constants⟩,
      h.entryPoint⟩

end Clausal
