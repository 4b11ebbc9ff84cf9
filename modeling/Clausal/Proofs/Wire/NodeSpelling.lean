import Clausal.Proofs.Node.WellFormed
import Clausal.Proofs.Wire.Spelling

/-!
# Spellings of nodes

The reader of each class of nodes accepts exactly the binary forms of the well-formed nodes of the
class.
-/

namespace Clausal

open Reader (Spells)

/-! ### Parts of a binary form -/

lemma Compact.encode_ne_nil {n : Nat} {bs : Bytes} (h : Compact.encode n = .ok bs) : bs ≠ [] := by
  obtain ⟨first, more, rfl, -⟩ := Compact.encode_eq_ok_iff.mp h
  exact List.cons_ne_nil _ _

lemma Wire.blob_ne_nil {a bs : Bytes} (h : Wire.blob a = .ok bs) : bs ≠ [] := by
  simp only [Wire.blob, Outcome.bind_eq_ok, Outcome.pure_eq_ok] at h
  obtain ⟨n, hn, rfl⟩ := h
  simp [Compact.encode_ne_nil hn]

lemma Wire.flag?_spells :
    (Reader.optional (Reader.flag "bool")).Spells fun o bs => Wire.flag? o = bs := by
  refine (Spells.flag "bool").optional.congr fun o bs => ?_
  cases o with
  | none => simp [Wire.flag?, eq_comm]
  | some b => simp [Wire.flag?, eq_comm]

/-! ### Inputs and calls -/

namespace NormalInput

lemma reader_spells : reader.Spells fun i bs => i.encode = .ok bs := by
  refine ((Spells.tag _).bind fun _ _ => (Spells.byte.field _).bind fun index _ =>
    Spells.selectors.bind fun children _ => Spells.pure _).congr fun i bs => ?_
  simp only [encode, Outcome.bind_eq_ok, Outcome.pure_eq_ok]
  constructor
  · rintro ⟨_, _, _, rfl, ⟨index, _, _, rfl, ⟨children, bs, _, h, ⟨rfl, rfl⟩, rfl⟩, rfl⟩, rfl⟩
    exact ⟨bs, h, by simp⟩
  · rintro ⟨bs, h, rfl⟩
    exact ⟨(), _, _, rfl, ⟨_, _, _, rfl, ⟨_, bs, [], h, ⟨rfl, rfl⟩, rfl⟩, rfl⟩, by simp⟩

lemma encode_ne_nil {i : NormalInput} {bs : Bytes} (h : i.encode = .ok bs) : bs ≠ [] := by
  simp only [encode, Outcome.bind_eq_ok, Outcome.pure_eq_ok] at h
  obtain ⟨cs, -, rfl⟩ := h
  exact List.cons_ne_nil _ _

end NormalInput

namespace Input

lemma encode_eq_ok_iff {i : Input} {bs : Bytes} :
    i.encode = .ok bs ↔
      ∃ struct, i.encodeStruct = .ok struct ∧ bs = Wire.variant inputVariants i.tag :: struct := by
  simp only [encode, Outcome.bind_eq_ok, Outcome.pure_eq_ok]

lemma tag_mem_variants (i : Input) : i.tag ∈ inputVariants := by
  cases i <;> simp [tag, inputVariants]

lemma reader_spells : reader.Spells fun i bs => i.encode = .ok bs := by
  have hvariant := Spells.variant inputVariants (by decide) (by decide)
  refine (hvariant.bind (V := fun t i bs => i.tag = t ∧ i.encodeStruct = .ok bs)
    fun t ht => ?_).congr fun i bs => ?_
  · obtain ⟨_, ht, -⟩ := ht
    -- of all tags only the five variants of inputs are left
    cases t with
    | normalInput =>
      refine (NormalInput.reader_spells.bind fun n _ => Spells.pure (normal n)).congr
        fun i bs => ?_
      cases i <;> simp [tag, encodeStruct]
    | constantInput =>
      refine ((Spells.tag _).bind fun _ _ => (Spells.blob.field _).bind fun name _ =>
        Spells.pure (constant name)).congr fun i bs => ?_
      cases i <;> simp [tag, encodeStruct]
    | labelInput =>
      refine ((Spells.tag _).bind fun _ _ => (Spells.blob.field _).bind fun text _ =>
        Spells.pure (label text)).congr fun i bs => ?_
      cases i <;> simp [tag, encodeStruct]
    | variableInput =>
      refine ((Spells.tag _).bind fun _ _ => (Spells.blob.field _).bind fun placeholder _ =>
        Spells.selectors.bind fun children _ => Spells.pure (var placeholder children)).congr
          fun i bs => ?_
      cases i <;> simp [tag, encodeStruct, and_assoc]
    | selfInput =>
      refine ((Spells.tag _).bind fun _ _ => Spells.selectors.bind fun children _ =>
        Spells.pure (self children)).congr fun i bs => ?_
      cases i <;> simp [tag, encodeStruct]
    | _ => simp [inputVariants] at ht
  · rw [encode_eq_ok_iff]
    constructor
    · rintro ⟨_, _, struct, ⟨-, rfl⟩, ⟨rfl, h⟩, rfl⟩
      exact ⟨struct, h, rfl⟩
    · rintro ⟨struct, h, rfl⟩
      exact ⟨i.tag, _, struct, ⟨i.tag_mem_variants, rfl⟩, ⟨rfl, h⟩, rfl⟩

lemma encode_ne_nil {i : Input} {bs : Bytes} (h : i.encode = .ok bs) : bs ≠ [] := by
  obtain ⟨struct, -, rfl⟩ := encode_eq_ok_iff.mp h
  exact List.cons_ne_nil _ _

end Input

namespace Call

lemma encode_eq_ok_iff {c : Call} {bs : Bytes} :
    c.encode = .ok bs ↔ ∃ source, c.encodeSource = .ok source ∧
      bs = Wire.variant callVariants c.tag :: Vocabulary.byte c.tag :: source := by
  simp only [encode, Outcome.bind_eq_ok, Outcome.pure_eq_ok]

lemma tag_mem_variants (c : Call) : c.tag ∈ callVariants := by
  cases c <;> simp [tag, callVariants]

lemma reader_spells : reader.Spells fun c bs => c.encode = .ok bs := by
  have hvariant := Spells.variant callVariants (by decide) (by decide)
  refine (hvariant.bind fun t ht => (Spells.tag t).bind (V := fun _ (c : Call) bs =>
    c.tag = t ∧ c.encodeSource = .ok bs) fun _ _ => ?_).congr fun c bs => ?_
  · obtain ⟨_, ht, -⟩ := ht
    -- of all tags only the four variants of calls are left
    cases t with
    | atomicPredicateCall =>
      refine ((Spells.blob.field _).bind fun source _ => Spells.pure (atomic source)).congr
        fun c bs => ?_
      cases c <;> simp [tag, encodeSource]
    | inputPredicateCall =>
      refine ((NormalInput.reader_spells.field _).bind fun source _ =>
        Spells.pure (input source)).congr fun c bs => ?_
      cases c <;> simp [tag, encodeSource]
    | variablePredicateCall =>
      refine (Spells.pure var).congr fun c bs => ?_
      cases c <;> simp [tag, encodeSource]
    | compiledPredicateCall =>
      refine ((Spells.blob.field _).bind fun source _ => Spells.pure (compiled source)).congr
        fun c bs => ?_
      cases c <;> simp [tag, encodeSource]
    | _ => simp [callVariants] at ht
  · rw [encode_eq_ok_iff]
    constructor
    · rintro ⟨t, _, _, ⟨-, rfl⟩, ⟨_, _, source, rfl, ⟨rfl, h⟩, rfl⟩, rfl⟩
      exact ⟨source, h, rfl⟩
    · rintro ⟨source, h, rfl⟩
      exact ⟨c.tag, _, _, ⟨c.tag_mem_variants, rfl⟩, ⟨(), _, source, rfl, ⟨rfl, h⟩, rfl⟩, rfl⟩

end Call

/-! ### Propositions and entries -/

namespace Proposition

lemma reader_spells : reader.Spells fun p bs => p.encode = .ok bs := by
  refine ((Spells.tag _).bind fun _ _ => (Call.reader_spells.field _).bind fun call _ =>
    ((Spells.sequenceOf Input.reader_spells fun _ _ => Input.encode_ne_nil).field _).bind
      fun inputs _ => (Wire.flag?_spells.field _).bind fun isCompiled _ => Spells.pure _).congr
        fun p bs => ?_
  simp only [encode, Outcome.bind_eq_ok, Outcome.pure_eq_ok]
  constructor
  · rintro ⟨_, _, _, rfl, ⟨call, bs₁, _, hcall, ⟨inputs, bs₂, _, hinputs, ⟨isCompiled, _, _, rfl,
      ⟨rfl, rfl⟩, rfl⟩, rfl⟩, rfl⟩, rfl⟩
    exact ⟨bs₁, hcall, bs₂, hinputs, by simp⟩
  · rintro ⟨bs₁, hcall, bs₂, hinputs, rfl⟩
    exact ⟨(), _, _, rfl, ⟨_, bs₁, _, hcall, ⟨_, bs₂, _, hinputs, ⟨_, _, [], rfl, ⟨rfl, rfl⟩, rfl⟩,
      rfl⟩, rfl⟩, by simp⟩

end Proposition

namespace Entry

/-- An entry starts with one byte that says which kind of entry it is. -/
lemma exists_cons {e : Entry} {bs : Bytes} (h : e.encode = .ok bs) : ∃ b bs', bs = b :: bs' := by
  cases e with
  | proposition p =>
    simp only [encode, Outcome.bind_eq_ok, Outcome.pure_eq_ok] at h
    obtain ⟨bs', -, rfl⟩ := h
    exact ⟨0, bs', rfl⟩
  | placeholder name =>
    simp only [encode, Outcome.bind_eq_ok, Outcome.pure_eq_ok] at h
    obtain ⟨bs', -, rfl⟩ := h
    exact ⟨1, bs', rfl⟩

lemma reader_spells : reader.Spells fun e bs => e.encode = .ok bs := by
  refine (Spells.offset fun start => Spells.byte.bind (V := fun b (e : Entry) bs =>
    e.encode = .ok (b :: bs)) fun found _ => ?_).congr fun e bs => ?_
  · split
    · next hfound =>
      refine (Proposition.reader_spells.bind fun p _ => Spells.pure (proposition p)).congr
        fun e bs => ?_
      cases e <;> simp [encode, hfound]
    · split
      · next hfound =>
        refine (Spells.blob.bind fun name _ => Spells.pure (placeholder name)).congr
          fun e bs => ?_
        cases e <;> simp [encode, hfound]
      · next h₀ h₁ =>
        refine (Spells.refuse _ _).congr fun e bs => ?_
        cases e <;> simp [encode, h₀, h₁]
  · constructor
    · rintro ⟨b, _, bs', rfl, h, rfl⟩
      exact h
    · intro h
      obtain ⟨b, bs', rfl⟩ := exists_cons h
      exact ⟨b, _, bs', rfl, h, rfl⟩

lemma encode_ne_nil {e : Entry} {bs : Bytes} (h : e.encode = .ok bs) : bs ≠ [] := by
  obtain ⟨b, bs', rfl⟩ := exists_cons h
  exact List.cons_ne_nil _ _

end Entry

/-! ### Contracts and predicates -/

namespace Contract

lemma reader_spells : reader.Spells fun c bs => c.WellFormed ∧ c.encode = .ok bs := by
  refine ((Spells.tag _).bind fun _ _ => (Spells.blob.field _).bind fun name _ =>
    (Spells.blob.field _).bind fun origin _ => (Spells.symbol.field _).bind fun connective _ =>
    ((Spells.sequenceOf Spells.blob fun _ _ => Wire.blob_ne_nil).field _).bind fun inputDefs _ =>
    ((Spells.sequenceOf Entry.reader_spells fun _ _ => Entry.encode_ne_nil).field _).bind
      fun inputs _ =>
    ((Spells.sequenceOf NormalInput.reader_spells fun _ _ => NormalInput.encode_ne_nil).field
      _).bind fun propertyInputs _ => Spells.ofOutcome _).congr fun c bs => ?_
  simp only [encode, Outcome.bind_eq_ok, Outcome.pure_eq_ok, checked_eq_ok_iff]
  -- field by field on both sides; the flag of well-formedness comes last
  constructor
  · rintro ⟨_, _, _, rfl, ⟨name, bs₁, _, h₁, ⟨origin, bs₂, _, h₂, ⟨connective, _, _, rfl,
      ⟨inputDefs, bs₃, _, h₃, ⟨inputs, bs₄, _, h₄, ⟨propertyInputs, bs₅, _, h₅, ⟨⟨hwf, rfl⟩, rfl⟩,
      rfl⟩, rfl⟩, rfl⟩, rfl⟩, rfl⟩, rfl⟩, rfl⟩
    exact ⟨hwf, bs₁, h₁, bs₂, h₂, bs₃, h₃, bs₄, h₄, bs₅, h₅, by simp⟩
  · rintro ⟨hwf, bs₁, h₁, bs₂, h₂, bs₃, h₃, bs₄, h₄, bs₅, h₅, rfl⟩
    exact ⟨(), _, _, rfl, ⟨_, bs₁, _, h₁, ⟨_, bs₂, _, h₂, ⟨_, _, _, rfl, ⟨_, bs₃, _, h₃, ⟨_, bs₄, _,
      h₄, ⟨_, bs₅, [], h₅, ⟨⟨hwf, rfl⟩, rfl⟩, rfl⟩, rfl⟩, rfl⟩, rfl⟩, rfl⟩, rfl⟩, by simp⟩

lemma encode_ne_nil {c : Contract} {bs : Bytes} (h : c.encode = .ok bs) : bs ≠ [] := by
  simp only [encode, Outcome.bind_eq_ok, Outcome.pure_eq_ok] at h
  obtain ⟨_, -, _, -, _, -, _, -, _, -, rfl⟩ := h
  exact List.cons_ne_nil _ _

end Contract

namespace Constant

lemma reader_spells : reader.Spells fun c bs => c.encode = .ok bs := by
  refine ((Spells.symbol.field _).bind fun kind _ => (Spells.blob.field _).bind fun name _ =>
    Spells.pure _).congr fun c bs => ?_
  simp only [encode, Outcome.bind_eq_ok, Outcome.pure_eq_ok]
  constructor
  · rintro ⟨kind, _, _, rfl, ⟨name, bs, _, h, ⟨rfl, rfl⟩, rfl⟩, rfl⟩
    exact ⟨bs, h, by simp⟩
  · rintro ⟨bs, h, rfl⟩
    exact ⟨_, _, _, rfl, ⟨_, bs, [], h, ⟨rfl, rfl⟩, rfl⟩, by simp⟩

lemma encode_ne_nil {c : Constant} {bs : Bytes} (h : c.encode = .ok bs) : bs ≠ [] := by
  simp only [encode, Outcome.bind_eq_ok, Outcome.pure_eq_ok] at h
  obtain ⟨_, -, rfl⟩ := h
  exact List.cons_ne_nil _ _

lemma optional_spells :
    (Reader.optional (Reader.sequence reader)).Spells fun cs bs => encodeAll? cs = .ok bs := by
  refine (Spells.sequenceOf reader_spells fun _ _ => encode_ne_nil).optional.congr
    fun cs bs => ?_
  cases cs with
  | none => simp [encodeAll?, eq_comm]
  | some cs => simp only [encodeAll?, Outcome.bind_eq_ok, Outcome.pure_eq_ok]

end Constant

namespace Predicate

lemma wellFormed_iff {p : Predicate} :
    p.WellFormed ↔ p.Coherent ∧ ∀ c ∈ p.contracts, c.WellFormed :=
  ⟨fun h => ⟨h.toCoherent, h.contracts⟩, fun h => ⟨h.1, h.2⟩⟩

lemma reader_spells : reader.Spells fun p bs => p.WellFormed ∧ p.encode = .ok bs := by
  refine ((Spells.tag _).bind fun _ _ => (Spells.blob.field _).bind fun name _ =>
    ((Spells.sequenceOf Spells.blob fun _ _ => Wire.blob_ne_nil).field _).bind fun inputDefs _ =>
    ((Spells.sequenceWith Contract.reader_spells fun _ _ => Contract.encode_ne_nil).field _).bind
      fun contracts _ =>
    (Constant.optional_spells.field _).bind fun constants _ =>
    (Spells.blob.field _).bind fun entryPoint _ => Spells.ofOutcome _).congr fun p bs => ?_
  simp only [encode, Outcome.bind_eq_ok, Outcome.pure_eq_ok, checked_eq_ok_iff, wellFormed_iff]
  constructor
  · rintro ⟨_, _, _, rfl, ⟨name, bs₁, _, h₁, ⟨inputDefs, bs₂, _, h₂, ⟨contracts, bs₃, _,
      ⟨hcontracts, h₃⟩, ⟨constants, bs₄, _, h₄, ⟨entryPoint, bs₅, _, h₅, ⟨⟨hcoherent, rfl⟩, rfl⟩,
      rfl⟩, rfl⟩, rfl⟩, rfl⟩, rfl⟩, rfl⟩
    exact ⟨⟨hcoherent, hcontracts⟩, bs₁, h₁, bs₂, h₂, bs₃, h₃, bs₄, h₄, bs₅, h₅, by simp⟩
  · rintro ⟨⟨hcoherent, hcontracts⟩, bs₁, h₁, bs₂, h₂, bs₃, h₃, bs₄, h₄, bs₅, h₅, rfl⟩
    exact ⟨(), _, _, rfl, ⟨_, bs₁, _, h₁, ⟨_, bs₂, _, h₂, ⟨_, bs₃, _, ⟨hcontracts, h₃⟩, ⟨_, bs₄, _,
      h₄, ⟨_, bs₅, [], h₅, ⟨⟨hcoherent, rfl⟩, rfl⟩, rfl⟩, rfl⟩, rfl⟩, rfl⟩, rfl⟩, by simp⟩

end Predicate

end Clausal
