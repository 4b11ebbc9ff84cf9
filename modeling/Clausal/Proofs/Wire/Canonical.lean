import Clausal.Proofs.Wire.Countable
import Clausal.Proofs.Wire.NodeSpelling

/-!
# One binary form for every node

Within a slot, reading undoes writing, wherever a binary form stands and whatever follows it, and
the only bytes that are read as a node are its binary form.
-/

namespace Clausal.Slot

/-- A value of a slot that is well formed, whatever its class. -/
def WellFormed : (s : Slot) → s.Value → Prop
  | predicate, p => p.WellFormed
  | contract, c => c.WellFormed
  | proposition, _ | constant, _ | normalInput, _ | compiledInput, _ | predicateCall, _ => True

/-- A value of a slot whose parts can be counted, whatever its class. -/
def Countable : (s : Slot) → s.Value → Prop
  | predicate, p => p.Countable
  | contract, c => c.Countable
  | proposition, p => p.Countable
  | constant, c => c.Countable
  | normalInput, i => i.Countable
  | compiledInput, i => i.Countable
  | predicateCall, c => c.Countable

/-- The operation that writes the nodes of a slot. -/
def encodeNode : Slot → Node → Outcome Bytes
  | compiledInput => Node.encodeInput
  | predicateCall => Node.encodeCall
  | predicate | contract | proposition | constant | normalInput => Node.encode

/-- Whether a slot is that of a struct class, not of a family behind its variant. -/
def isStruct : Slot → Bool
  | compiledInput | predicateCall => false
  | predicate | contract | proposition | constant | normalInput => true

variable {s : Slot} {x y : s.Value} {bs bs' : Bytes}

lemma reader_spells (s : Slot) :
    s.reader.Spells fun x bs => s.WellFormed x ∧ s.encode x = .ok bs := by
  cases s with
  | predicate => exact Predicate.reader_spells
  | contract => exact Contract.reader_spells
  | proposition => exact Proposition.reader_spells.true_and
  | constant => exact Constant.reader_spells.true_and
  | normalInput => exact NormalInput.reader_spells.true_and
  | compiledInput => exact Input.reader_spells.true_and
  | predicateCall => exact Call.reader_spells.true_and

/-- The values with a binary form are those whose parts can be counted. -/
lemma exists_encode_iff (s : Slot) (x : s.Value) :
    (∃ bs, s.encode x = .ok bs) ↔ s.Countable x := by
  cases s with
  | predicate => exact Predicate.exists_encode_iff
  | contract => exact Contract.exists_encode_iff
  | proposition => exact Proposition.exists_encode_iff
  | constant => exact Constant.exists_encode_iff
  | normalInput => exact NormalInput.exists_encode_iff
  | compiledInput => exact Input.exists_encode_iff
  | predicateCall => exact Call.exists_encode_iff

@[simp] lemma encodeNode_toNode (s : Slot) (x : s.Value) :
    s.encodeNode (s.toNode x) = s.encode x := by
  cases s <;> rfl

/-- Nodes are written in the slot of their own, which for references to parameters is that of their
struct. -/
lemma encode_toNode (h : ∀ i, s.toNode x = .input (.normal i) → s = .normalInput) :
    (s.toNode x).encode = s.encode x := by
  cases s with
  | compiledInput =>
    cases x with
    | normal i => cases h i rfl
    | _ => rfl
  | _ => rfl

lemma decodeClass_className (hs : s.isStruct) (x : s.Value) (bs : Bytes) :
    Node.decodeClass (s.toNode x).className bs = Node.decode s bs := by
  cases s with
  | compiledInput | predicateCall => simp [isStruct] at hs
  | _ => rfl

lemma decode_eq_ok_iff : s.decode bs = .ok x ↔ s.WellFormed x ∧ s.encode x = .ok bs :=
  s.reader_spells.run_eq_ok_iff

/-- Behind a binary form reading stops. -/
lemma read_encode (hx : s.WellFormed x) (h : s.encode x = .ok bs) (start : Nat) (rest : Bytes) :
    s.reader ⟨start, bs ++ rest⟩ = .ok (x, ⟨start + bs.length, rest⟩) :=
  s.reader_spells.read ⟨hx, h⟩ start rest

lemma eq_of_prefix (hx : s.WellFormed x) (h : s.encode x = .ok bs) (hy : s.WellFormed y)
    (h' : s.encode y = .ok bs') (hbs : bs <+: bs') : bs' = bs := by
  obtain ⟨rest, hrest⟩ := hbs
  rw [← List.append_nil bs'] at hrest
  obtain ⟨-, rfl, -⟩ := s.reader_spells.append_inj ⟨hx, h⟩ ⟨hy, h'⟩ hrest
  rfl

/-- A well-formed value whose parts can be counted has a binary form. It is read back in its slot,
on its own and in front of other bytes, and it does not begin that of another value of the slot. -/
theorem exists_encode_decode_eq (hx : s.WellFormed x) (hcount : s.Countable x) :
    ∃ bs, s.encodeNode (s.toNode x) = .ok bs ∧ s.decode bs = .ok x ∧
      ((∀ i, s.toNode x = .input (.normal i) → s = .normalInput) → (s.toNode x).encode = .ok bs) ∧
      (s.isStruct → Node.decodeClass (s.toNode x).className bs = .ok (s.toNode x)) ∧
      (∀ start rest, s.reader ⟨start, bs ++ rest⟩ = .ok (x, ⟨start + bs.length, rest⟩)) ∧
      ∀ y bs', s.WellFormed y → s.encodeNode (s.toNode y) = .ok bs' → bs <+: bs' → bs' = bs := by
  obtain ⟨bs, h⟩ := (s.exists_encode_iff x).mpr hcount
  have hdecode : s.decode bs = .ok x := decode_eq_ok_iff.mpr ⟨hx, h⟩
  refine ⟨bs, by rw [encodeNode_toNode, h], hdecode, fun hslot => by rw [encode_toNode hslot, h],
    fun hs => ?_, read_encode hx h, ?_⟩
  · rw [decodeClass_className hs, Node.decode, hdecode]
    rfl
  · intro y bs' hy h'
    rw [encodeNode_toNode] at h'
    exact eq_of_prefix hx h hy h'

/-- A quantifier over the first parameter that calls it on inputs of every class. Its names are not
all text. -/
def everyInput : Contract where
  name := [0xff, 0x00]
  origin := []
  connective := .forAll
  inputDefs := [[0x61], []]
  inputs := [.placeholder [0xc3], .placeholder [0x76], .proposition {
    call := .input { index := 0, children := [-128, 127] }
    inputs := [.constant [0x63], .label [], .normal { index := 1 }, .var [0x76] [-1], .self [0]]
    isCompiled := some false }]
  propertyInputs := [{ index := 0, children := [2] }]

theorem exists_encode_decode_eq_everyInput :
    Slot.contract.WellFormed everyInput ∧ Slot.contract.Countable everyInput ∧
    ∃ bs, Slot.contract.encodeNode (Slot.contract.toNode everyInput) = .ok bs ∧
      Slot.contract.decode bs = .ok everyInput := by
  have hwf : Slot.contract.WellFormed everyInput := .quantifier rfl _ _ _
  have hcount : Slot.contract.Countable everyInput :=
    (Slot.contract.exists_encode_iff everyInput).mp ⟨_, rfl⟩
  obtain ⟨bs, hencode, hdecode, -⟩ := exists_encode_decode_eq hwf hcount
  exact ⟨hwf, hcount, bs, hencode, hdecode⟩

/-- Bytes that are read as a value are its binary form, and no other bytes are read as it. -/
theorem encode_eq_of_decode (h : s.decode bs = .ok x) :
    s.encodeNode (s.toNode x) = .ok bs ∧ ∀ bs', s.decode bs' = .ok x → bs' = bs := by
  rw [encodeNode_toNode]
  obtain ⟨-, hencode⟩ := decode_eq_ok_iff.mp h
  refine ⟨hencode, fun bs' h' => ?_⟩
  obtain ⟨-, hencode'⟩ := decode_eq_ok_iff.mp h'
  rw [hencode, Except.ok.injEq] at hencode'
  exact hencode'.symm

theorem encode_eq_of_decode_var :
    Slot.compiledInput.decode [3, 11, 8, 0xff, 0x00, 4, 0x80] = .ok (.var [0xff, 0x00] [-128]) ∧
    Slot.compiledInput.encodeNode (.input (.var [0xff, 0x00] [-128])) =
      .ok [3, 11, 8, 0xff, 0x00, 4, 0x80] := by
  have hdecode : Slot.compiledInput.decode [3, 11, 8, 0xff, 0x00, 4, 0x80] =
      .ok (.var [0xff, 0x00] [-128]) := rfl
  exact ⟨hdecode, (encode_eq_of_decode hdecode).1⟩

end Clausal.Slot
