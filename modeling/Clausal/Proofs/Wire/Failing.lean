import Clausal.Proofs.Refusing
import Clausal.Wire.Slot

/-!
# Kinds of faults of bytes

Whatever the bytes are, reading a node from the front of them fails with a fault of one of a few
kinds. It never fails otherwise, and its faults have no position.
-/

namespace Clausal

namespace Reader

variable {α β : Type} {r r₁ r₂ : Reader α}

/-- The kinds of faults that reading can end in before the bytes are used up. -/
def faultKinds : List FaultKind :=
  [.truncatedInput, .tagShapeMismatch, .unknownTag, .nonCanonicalEncoding,
    .malformedConnectiveArity, .duplicateName, .missingField]

/-- Whatever the bytes, the reader fails only with faults of the kinds above. -/
def FailsInKind (r : Reader α) : Prop := ∀ c, (r c).FailsOnly (Failure.IsOf faultKinds)

namespace FailsInKind

lemma pure (a : α) : (Pure.pure a : Reader α).FailsInKind := fun _ => .ok _

lemma refuse {cause : Cause} (path : Path) (h : faultKinds.contains cause.kind = true) :
    (Reader.refuse cause path : Reader α).FailsInKind :=
  fun _ => .refuse ⟨List.contains_iff_mem.mp h, rfl⟩

lemma bind {f : α → Reader β} (hr : r.FailsInKind) (hf : ∀ a, (f a).FailsInKind) :
    (r >>= f).FailsInKind := fun c => (hr c).bind fun p _ => hf p.1 p.2

lemma ite {p : Prop} [Decidable p] (h₁ : r₁.FailsInKind) (h₂ : r₂.FailsInKind) :
    (if p then r₁ else r₂).FailsInKind := by
  split
  · exact h₁
  · exact h₂

lemma ofOutcome {x : Outcome α} (hx : x.FailsOnly (Failure.IsOf faultKinds)) :
    (Reader.ofOutcome x).FailsInKind := fun _ => hx.map

lemma field (name : String) (hr : r.FailsInKind) : (Reader.field name r).FailsInKind :=
  fun c => .below ((hr c).mono fun _ => Failure.isOf_under.mpr)

lemma item (i : Nat) (hr : r.FailsInKind) : (Reader.item i r).FailsInKind :=
  fun c => .below ((hr c).mono fun _ => Failure.isOf_under.mpr)

lemma offset : Reader.offset.FailsInKind := fun _ => .ok _

lemma byte : Reader.byte.FailsInKind := by
  rintro ⟨start, _ | ⟨b, bs⟩⟩
  · exact refuse [] rfl ⟨start, []⟩
  · exact .ok _

lemma take (n : Nat) : (Reader.take n).FailsInKind := by
  intro c
  simp only [Reader.take]
  split
  · exact refuse [] rfl c
  · exact .ok _

lemma minimal (start n least : Nat) : (Reader.minimal start n least).FailsInKind :=
  ite (refuse _ rfl) (pure n)

lemma compact : Reader.compact.FailsInKind := by
  refine offset.bind fun start => byte.bind fun first => ?_
  split
  · exact pure _
  · exact (take 1).bind fun more => minimal start _ _
  · exact (take 3).bind fun more => minimal start _ _
  · exact (take _).bind fun raw => ite (refuse _ rfl) (minimal start _ _)

lemma blob : Reader.blob.FailsInKind := compact.bind fun n => take n

lemma items (hr : r.FailsInKind) (i n : Nat) : (Reader.items r i n).FailsInKind := by
  induction n generalizing i with
  | zero => exact pure []
  | succ n ih => exact (hr.item i).bind fun a => (ih (i + 1)).bind fun as => pure _

lemma sequence (hr : r.FailsInKind) : (Reader.sequence r).FailsInKind :=
  compact.bind fun n c => ite (refuse _ rfl) (hr.items 0 n) c

lemma selectors : Reader.selectors.FailsInKind :=
  (sequence (byte.bind fun _ => pure _)).field _

lemma tag (t : NodeTag) : (Reader.tag t).FailsInKind :=
  offset.bind fun _ => byte.bind fun _ => ite ((refuse _ rfl).field _) (pure ())

lemma symbol [Vocabulary α] : (Reader.symbol : Reader α).FailsInKind := by
  refine byte.bind fun found => ?_
  split
  · exact pure _
  · exact refuse _ rfl

lemma variant (variants : List NodeTag) : (Reader.variant variants).FailsInKind := by
  refine offset.bind fun start => byte.bind fun found => ?_
  split
  · exact pure _
  · exact refuse _ rfl

lemma flag (what : String) : (Reader.flag what).FailsInKind :=
  offset.bind fun _ => byte.bind fun _ => ite (refuse _ rfl) (pure _)

lemma optional (hr : r.FailsInKind) : (Reader.optional r).FailsInKind :=
  (flag "option").bind fun _ => ite (hr.bind fun _ => pure _) (pure none)

end FailsInKind

end Reader

open Reader (FailsInKind)

/-! ### Checks -/

lemma Contract.failsOnly_checked (c : Contract) :
    c.checked.FailsOnly (Failure.IsOf [.malformedConnectiveArity]) := by
  refine ((c.connective.failsOnly_shape c.inputs).mono ?_).bind fun _ _ => .ok c
  rintro _ ⟨cause, p, hkind, -, rfl⟩
  exact ⟨List.mem_singleton.mpr hkind, rfl⟩

lemma Predicate.failsOnly_checked (p : Predicate) :
    p.checked.FailsOnly (Failure.IsOf [.duplicateName, .missingField]) := by
  have hnames (names : List Bytes) :
      (distinctNames [] names).FailsOnly (Failure.IsOf [.duplicateName, .missingField]) := by
    refine (failsOnly_distinctNames [] names).mono ?_
    rintro _ ⟨i, n, -, rfl⟩
    exact ⟨List.mem_cons_self, rfl⟩
  refine (Outcome.FailsOnly.below ((hnames _).mono fun _ => Failure.isOf_under.mpr)).bind
    fun _ _ => (Outcome.FailsOnly.below ((hnames _).mono fun _ => Failure.isOf_under.mpr)).bind
    fun _ _ => ?_
  split
  · exact (Outcome.FailsOnly.below (.refuse ⟨by simp [Cause.kind], rfl⟩)).bind fun _ _ => .ok p
  · exact .ok p

/-! ### Nodes -/

lemma NormalInput.reader_failsInKind : reader.FailsInKind :=
  (FailsInKind.tag _).bind fun _ => (FailsInKind.byte.field _).bind fun _ =>
    FailsInKind.selectors.bind fun _ => .pure _

lemma Input.reader_failsInKind : reader.FailsInKind := by
  refine (FailsInKind.variant _).bind fun t => ?_
  split
  · exact NormalInput.reader_failsInKind.bind fun _ => .pure _
  · exact (FailsInKind.tag _).bind fun _ => (FailsInKind.blob.field _).bind fun _ => .pure _
  · exact (FailsInKind.tag _).bind fun _ => (FailsInKind.blob.field _).bind fun _ => .pure _
  · exact (FailsInKind.tag _).bind fun _ => (FailsInKind.blob.field _).bind fun _ =>
      FailsInKind.selectors.bind fun _ => .pure _
  · exact (FailsInKind.tag _).bind fun _ => FailsInKind.selectors.bind fun _ => .pure _

lemma Call.reader_failsInKind : reader.FailsInKind := by
  refine (FailsInKind.variant _).bind fun t => (FailsInKind.tag t).bind fun _ => ?_
  split
  · exact (FailsInKind.blob.field _).bind fun _ => .pure _
  · exact (NormalInput.reader_failsInKind.field _).bind fun _ => .pure _
  · exact .pure _
  · exact (FailsInKind.blob.field _).bind fun _ => .pure _

lemma Proposition.reader_failsInKind : reader.FailsInKind :=
  (FailsInKind.tag _).bind fun _ => (Call.reader_failsInKind.field _).bind fun _ =>
    (Input.reader_failsInKind.sequence.field _).bind fun _ =>
    ((FailsInKind.flag "bool").optional.field _).bind fun _ => .pure _

lemma Entry.reader_failsInKind : reader.FailsInKind := by
  refine FailsInKind.offset.bind fun start => FailsInKind.byte.bind fun found => ?_
  refine .ite (Proposition.reader_failsInKind.bind fun _ => .pure _) (.ite ?_ (.refuse _ rfl))
  exact FailsInKind.blob.bind fun _ => .pure _

lemma Contract.reader_failsInKind : reader.FailsInKind := by
  refine (FailsInKind.tag _).bind fun _ => (FailsInKind.blob.field _).bind fun _ =>
    (FailsInKind.blob.field _).bind fun _ => (FailsInKind.symbol.field _).bind fun _ =>
    (FailsInKind.blob.sequence.field _).bind fun _ =>
    (Entry.reader_failsInKind.sequence.field _).bind fun _ =>
    (NormalInput.reader_failsInKind.sequence.field _).bind fun _ => .ofOutcome ?_
  exact (failsOnly_checked _).mono fun e he => he.mono (by decide)

lemma Constant.reader_failsInKind : reader.FailsInKind :=
  (FailsInKind.symbol.field _).bind fun _ => (FailsInKind.blob.field _).bind fun _ => .pure _

lemma Predicate.reader_failsInKind : reader.FailsInKind := by
  refine (FailsInKind.tag _).bind fun _ => (FailsInKind.blob.field _).bind fun _ =>
    (FailsInKind.blob.sequence.field _).bind fun _ =>
    (Contract.reader_failsInKind.sequence.field _).bind fun _ =>
    (Constant.reader_failsInKind.sequence.optional.field _).bind fun _ =>
    (FailsInKind.blob.field _).bind fun _ => .ofOutcome ?_
  exact (failsOnly_checked _).mono fun e he => he.mono (by decide)

lemma Slot.reader_failsInKind (s : Slot) : s.reader.FailsInKind := by
  cases s with
  | predicate => exact Predicate.reader_failsInKind
  | contract => exact Contract.reader_failsInKind
  | proposition => exact Proposition.reader_failsInKind
  | constant => exact Constant.reader_failsInKind
  | normalInput => exact NormalInput.reader_failsInKind
  | compiledInput => exact Input.reader_failsInKind
  | predicateCall => exact Call.reader_failsInKind

end Clausal
