import Clausal.Proofs.Wire.NodeSpelling

/-!
# Readers in front of written bytes

What a reader answers where the bytes of a node stand, whether the node is well formed or not. The
bytes of parts are always read; it is checking the parts together that can fail, and the failure is
that of the check, seen from the place of the part.
-/

namespace Clausal

namespace Reader

variable {α β γ : Type} {r : Reader α}

/-- In front of the bytes `bs` the reader comes to the outcome `x`, whatever follows them, and stops
behind them if it answers. -/
def Yields (r : Reader α) (bs : Bytes) (x : Outcome α) : Prop :=
  ∀ start rest, r ⟨start, bs ++ rest⟩ = x.map fun a => (a, ⟨start + bs.length, rest⟩)

/-- A reader yields what the bytes spell. -/
lemma Spells.yields {W : α → Bytes → Prop} (hr : r.Spells W) {a : α} {bs : Bytes} (h : W a bs) :
    r.Yields bs (.ok a) := fun start rest => hr.read h start rest

namespace Yields

variable {bs bs₁ bs₂ : Bytes}

/-- The second reader matters only if the first answers. -/
lemma bind {f : α → Reader β} {x : Outcome α} {g : α → Outcome β} (hr : r.Yields bs₁ x)
    (hf : ∀ a, (f a).Yields bs₂ (g a)) : (r >>= f).Yields (bs₁ ++ bs₂) (x >>= g) := by
  intro start rest
  change ((r ⟨start, bs₁ ++ bs₂ ++ rest⟩ : Outcome (α × Cursor)) >>= fun p => f p.1 p.2) = _
  rw [List.append_assoc, hr start (bs₂ ++ rest)]
  cases x with
  | error e => rfl
  | ok a =>
    change f a ⟨start + bs₁.length, bs₂ ++ rest⟩ = (g a).map _
    rw [hf a, List.length_append, Nat.add_assoc]

/-- After a reader that answers `a`, reading goes on as with `a`. -/
lemma bind_ok {f : α → Reader β} {a : α} {y : Outcome β} (hr : r.Yields bs₁ (.ok a))
    (hf : (f a).Yields bs₂ y) : (r >>= f).Yields (bs₁ ++ bs₂) y := by
  intro start rest
  change ((r ⟨start, bs₁ ++ bs₂ ++ rest⟩ : Outcome (α × Cursor)) >>= fun p => f p.1 p.2) = _
  rw [List.append_assoc, hr start (bs₂ ++ rest)]
  change f a ⟨start + bs₁.length, bs₂ ++ rest⟩ = y.map _
  rw [hf, List.length_append, Nat.add_assoc]

lemma pure (a : α) : (Pure.pure a : Reader α).Yields [] (.ok a) := fun _ _ => rfl

lemma ofOutcome (x : Outcome α) : (Reader.ofOutcome x).Yields [] x := fun _ _ => rfl

lemma tag (t : NodeTag) : (Reader.tag t).Yields [Vocabulary.byte t] (.ok ()) :=
  (Spells.tag t).yields rfl

lemma field {x : Outcome α} (name : String) (hr : r.Yields bs x) :
    (Reader.field name r).Yields bs (inField name x) := by
  intro start rest
  rw [Reader.field, hr]
  cases x <;> rfl

lemma item {x : Outcome α} (i : Nat) (hr : r.Yields bs x) :
    (Reader.item i r).Yields bs (inItem i x) := by
  intro start rest
  rw [Reader.item, hr]
  cases x <;> rfl

/-- Items are read up to the first failure, which is that of its item. -/
lemma items {f : β → Outcome α} {as : List β} {bss : List Bytes}
    (h : List.Forall₂ (fun b bs => r.Yields bs (f b)) as bss) (k : Nat) :
    (Reader.items r k as.length).Yields bss.flatten
      ((as.zipIdx k).mapM fun (a, i) => inItem i (f a)) := by
  induction h generalizing k with
  | nil => exact pure []
  | cons ha _ ih =>
    rw [List.zipIdx_cons, List.mapM_cons, List.flatten_cons, List.length_cons]
    refine (ha.item k).bind fun a => ?_
    rw [← List.append_nil (List.flatten _)]
    exact (ih (k + 1)).bind fun as => pure _

/-- A sequence is read like its items, none of which is empty. -/
lemma sequence {f : β → Outcome α} {as : List β} {bss : List Bytes} {n : Bytes}
    (hn : Compact.encode as.length = .ok n)
    (h : List.Forall₂ (fun b bs => r.Yields bs (f b) ∧ bs ≠ []) as bss) :
    (Reader.sequence r).Yields (n ++ bss.flatten) (forItems f as) := by
  have hle := Spells.length_le_length_flatten h fun _ _ h => h.2
  refine (Spells.compact.yields hn).bind_ok fun start rest => ?_
  -- no item is empty, so the count is within the bytes that are left
  have hguard : ¬as.length > (bss.flatten ++ rest).length := by
    rw [List.length_append]
    omega
  have hitems : Reader.items r 0 as.length ⟨start, bss.flatten ++ rest⟩ =
      (forItems f as).map fun bs => (bs, ⟨start + bss.flatten.length, rest⟩) :=
    items (h.imp fun _ _ h => h.1) 0 start rest
  rw [← hitems]
  change (if as.length > (bss.flatten ++ rest).length then
    Reader.refuse (.sequenceTooLong as.length start) else Reader.items r 0 as.length)
      ⟨start, bss.flatten ++ rest⟩ = _
  rw [if_neg hguard]

/-- All of the bytes are read. -/
lemma run {x : Outcome α} (hr : r.Yields bs x) : r.run bs = x := by
  have h := hr 0 []
  rw [List.append_nil] at h
  rw [Reader.run, h]
  cases x <;> rfl

end Yields

end Reader

open Reader (Spells Yields)

/-! ### Contracts and predicates -/

lemma Wire.sequence_eq_ok {α : Type} {encode : α → Outcome Bytes} {as : List α} {bs : Bytes} :
    Wire.sequence encode as = .ok bs ↔ ∃ n bss, Compact.encode as.length = .ok n ∧
      List.Forall₂ (fun a bs => encode a = .ok bs) as bss ∧ bs = n ++ bss.flatten := by
  simp [Wire.sequence, Outcome.mapM_eq_ok]

/-- In front of the bytes of a contract the contract is checked. -/
lemma Contract.reader_yields {c : Contract} {bs : Bytes} (h : c.encode = .ok bs) :
    Contract.reader.Yields bs c.checked := by
  simp only [encode, Outcome.bind_eq_ok, Outcome.pure_eq_ok] at h
  obtain ⟨bs₁, h₁, bs₂, h₂, bs₃, h₃, bs₄, h₄, bs₅, h₅, rfl⟩ := h
  have hbytes : Vocabulary.byte NodeTag.intermediateCompiledPredicate ::
      (bs₁ ++ bs₂ ++ Vocabulary.byte c.connective :: (bs₃ ++ bs₄ ++ bs₅)) =
        [Vocabulary.byte NodeTag.intermediateCompiledPredicate] ++ (bs₁ ++ (bs₂ ++
          ([Vocabulary.byte c.connective] ++ (bs₃ ++ (bs₄ ++ (bs₅ ++ [])))))) := by
    simp
  rw [hbytes]
  exact (Yields.tag _).bind_ok (((Spells.blob.field _).yields h₁).bind_ok
    (((Spells.blob.field _).yields h₂).bind_ok (((Spells.symbol.field _).yields rfl).bind_ok
    ((((Spells.sequenceOf Spells.blob fun _ _ => Wire.blob_ne_nil).field _).yields h₃).bind_ok
    ((((Spells.sequenceOf Entry.reader_spells fun _ _ => Entry.encode_ne_nil).field _).yields
      h₄).bind_ok
    ((((Spells.sequenceOf NormalInput.reader_spells fun _ _ =>
      NormalInput.encode_ne_nil).field _).yields h₅).bind_ok (Yields.ofOutcome c.checked)))))))

/-- In front of the bytes of a predicate its contracts are checked and then its parts together. -/
lemma Predicate.reader_yields {p : Predicate} {bs : Bytes} (h : p.encode = .ok bs) :
    Predicate.reader.Yields bs p.assemble := by
  simp only [encode, Outcome.bind_eq_ok, Outcome.pure_eq_ok] at h
  obtain ⟨bs₁, h₁, bs₂, h₂, _, h₃, bs₄, h₄, bs₅, h₅, rfl⟩ := h
  obtain ⟨n, bss, hn, hbss, rfl⟩ := Wire.sequence_eq_ok.mp h₃
  have hcontracts := Yields.sequence hn
    (hbss.imp fun c bs hc => ⟨Contract.reader_yields hc, Contract.encode_ne_nil hc⟩)
  -- the contracts were encoded without being checked; reading them checks each
  have hbytes : Vocabulary.byte NodeTag.compiledPredicate ::
      (bs₁ ++ bs₂ ++ (n ++ bss.flatten) ++ bs₄ ++ bs₅) =
        [Vocabulary.byte NodeTag.compiledPredicate] ++ (bs₁ ++ (bs₂ ++ ((n ++ bss.flatten) ++
          (bs₄ ++ (bs₅ ++ []))))) := by
    simp
  rw [hbytes]
  exact (Yields.tag _).bind_ok (((Spells.blob.field _).yields h₁).bind_ok
    ((((Spells.sequenceOf Spells.blob fun _ _ => Wire.blob_ne_nil).field _).yields h₂).bind_ok
    ((hcontracts.field _).bind fun _ => ((Constant.optional_spells.field _).yields h₄).bind_ok
    (((Spells.blob.field _).yields h₅).bind_ok (Yields.ofOutcome _)))))

end Clausal
