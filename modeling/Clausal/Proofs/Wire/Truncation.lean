import Clausal.Proofs.Wire.Canonical
import Clausal.Proofs.Wire.Failing

/-!
# Messages that are cut or extended

A binary form says itself where it ends. A reader that is given only a part of it runs out of bytes
and reports nothing else, wherever the cut falls; bytes behind it are noticed when reading is over,
and only then.
-/

namespace Clausal

/-- The operation is refused because the bytes are cut short. -/
def Outcome.Truncated {α : Type} (x : Outcome α) : Prop :=
  ∃ f, x = .error (.fault f) ∧ f.cause.kind = .truncatedInput

namespace Outcome.Truncated

variable {α β : Type} {x : Outcome α}

lemma bind (hx : x.Truncated) (f : α → Outcome β) : (x >>= f).Truncated := by
  obtain ⟨fault, rfl, hkind⟩ := hx
  exact ⟨fault, rfl, hkind⟩

lemma below (hx : x.Truncated) (steps : Path) : (Clausal.below steps x).Truncated := by
  obtain ⟨fault, rfl, hkind⟩ := hx
  exact ⟨_, rfl, hkind⟩

end Outcome.Truncated

namespace Reader

variable {α β : Type} {r r₁ r₂ : Reader α} {W : α → Bytes → Prop}

/-- The reader stops where the bytes it has taken tell it to, and fewer bytes are not enough. -/
structure Delimits (r : Reader α) : Prop where
  spells : ∃ W, r.Spells W
  truncated : ∀ {start bs a offset}, r ⟨start, bs⟩ = .ok (a, ⟨offset, []⟩) →
    ∀ cut, cut <+: bs → cut ≠ bs → (r ⟨start, cut⟩).Truncated

namespace Delimits

/-! ### Rules -/

/-- A reader that takes no bytes cannot be cut short. -/
lemma of_nil (hr : r.Spells W) (hnil : ∀ a bs, W a bs → bs = []) : r.Delimits where
  spells := ⟨W, hr⟩
  truncated := by
    intro start bs a offset h cut hcut hne
    obtain ⟨bs, hW, rfl, -⟩ := (hr ..).mp h
    obtain rfl := hnil a bs hW
    exact absurd (List.prefix_nil.mp hcut) hne

lemma pure (a : α) : (Pure.pure a : Reader α).Delimits := of_nil (.pure a) fun _ _ h => h.2

lemma refuse (cause : Cause) (path : Path) : (Reader.refuse cause path : Reader α).Delimits :=
  of_nil (.refuse cause path) fun _ _ h => h.elim

lemma ofOutcome (x : Outcome α) : (Reader.ofOutcome x).Delimits :=
  of_nil (.ofOutcome x) fun _ _ h => h.2

/-- The cut falls inside of what the first reader takes or inside of what the second one takes. -/
lemma bind {f : α → Reader β} (hr : r.Delimits) (hf : ∀ a, (f a).Delimits) :
    (r >>= f).Delimits where
  spells := by
    obtain ⟨W, hW⟩ := hr.spells
    choose V hV using fun a => (hf a).spells
    exact ⟨_, hW.bind fun a _ => hV a⟩
  truncated := by
    intro start bs b offset h cut hcut hne
    change (r ⟨start, bs⟩ >>= fun p => f p.1 p.2 : Outcome (β × Cursor)) = _ at h
    change (r ⟨start, cut⟩ >>= fun p => f p.1 p.2 : Outcome (β × Cursor)).Truncated
    obtain ⟨⟨a, ⟨middle, bs₂⟩⟩, ha, hb⟩ := Outcome.bind_eq_ok.mp h
    obtain ⟨W, hW⟩ := hr.spells
    obtain ⟨bs₁, hbs₁, rfl, rfl⟩ := (hW ..).mp ha
    have hread (rest : Bytes) := hW.read hbs₁ start rest
    -- the cut is either behind what the first reader takes or within it
    by_cases hbehind : bs₁ <+: cut
    · obtain ⟨cut₂, rfl⟩ := hbehind
      rw [hread cut₂]
      refine (hf a).truncated hb cut₂ ((List.prefix_append_right_inj bs₁).mp hcut) ?_
      rintro rfl
      exact hne rfl
    -- the first reader is cut off, and it does not get as far as the second
    · have hcut₁ : cut <+: bs₁ :=
        (List.prefix_or_prefix_of_prefix hcut (List.prefix_append ..)).resolve_right hbehind
      have hwhole := hread []
      rw [List.append_nil] at hwhole
      refine (hr.truncated hwhole cut hcut₁ ?_).bind _
      rintro rfl
      exact hbehind List.prefix_rfl

/-- What has been read so far may be refused. -/
lemma ite {p : Prop} [Decidable p] (h₁ : r₁.Delimits) (h₂ : r₂.Delimits) :
    (if p then r₁ else r₂).Delimits := by
  split
  · exact h₁
  · exact h₂

/-- The offset is for messages only. -/
lemma offset {f : Nat → Reader α} (hr : (Reader.offset >>= f).Spells W)
    (hf : ∀ n, (f n).Delimits) : (Reader.offset >>= f).Delimits where
  spells := ⟨W, hr⟩
  truncated := fun {start _ _ _} h => (hf start).truncated h

lemma field (name : String) (hr : r.Delimits) : (Reader.field name r).Delimits where
  spells := by
    obtain ⟨W, hW⟩ := hr.spells
    exact ⟨W, hW.field name⟩
  truncated := fun h cut hcut hne =>
    (hr.truncated (inField_eq_ok.mp h) cut hcut hne).below _

lemma item (i : Nat) (hr : r.Delimits) : (Reader.item i r).Delimits where
  spells := by
    obtain ⟨W, hW⟩ := hr.spells
    exact ⟨W, hW.item i⟩
  truncated := fun h cut hcut hne =>
    (hr.truncated (inItem_eq_ok.mp h) cut hcut hne).below _

/-! ### Bytes and numbers -/

lemma byte : Reader.byte.Delimits where
  spells := ⟨_, .byte⟩
  truncated := by
    intro start bs b offset h cut hcut hne
    obtain ⟨_, rfl, rfl, -⟩ := (Spells.byte ..).mp h
    have hcases : cut = [] ∨ cut = [b] := by simpa [List.prefix_cons_iff] using hcut
    obtain rfl := hcases.resolve_right hne
    exact ⟨_, rfl, rfl⟩

lemma take (n : Nat) : (Reader.take n).Delimits where
  spells := ⟨_, .take n⟩
  truncated := by
    intro start bs b offset h cut hcut hne
    obtain ⟨_, ⟨rfl, hlen⟩, rfl, -⟩ := (Spells.take n ..).mp h
    -- a proper front of what is taken is too short
    have hlt : (cut.take n).length < n := by
      have := List.length_take_le' n cut
      have := hcut.length_le
      have : cut.length ≠ n := fun h => hne (hcut.eq_of_length (by simp [h, hlen]))
      simp only [List.append_nil] at *
      omega
    simp only [Reader.take, hlt, if_true]
    exact ⟨_, rfl, rfl⟩

lemma minimal (start n least : Nat) : (Reader.minimal start n least).Delimits :=
  ite (refuse _ _) (pure n)

lemma compact : Reader.compact.Delimits := by
  refine offset .compact fun start => byte.bind fun first => ?_
  split
  · exact pure _
  · exact (take 1).bind fun more => minimal start _ _
  · exact (take 3).bind fun more => minimal start _ _
  · exact (take _).bind fun raw => ite (refuse _ _) (minimal start _ _)

lemma blob : Reader.blob.Delimits := compact.bind fun n => take n

/-! ### Sequences -/

lemma items (hr : r.Delimits) (i n : Nat) : (Reader.items r i n).Delimits := by
  induction n generalizing i with
  | zero => exact pure []
  | succ n ih => exact (hr.item i).bind fun a => (ih (i + 1)).bind fun as => pure _

/-- A number of items that fits the bytes of all of them may be too large for some of the bytes,
which is refused like an item that is cut. -/
lemma itemsWithin (hr : r.Spells W) (hne : ∀ a bs, W a bs → bs ≠ []) (h : r.Delimits) (n : Nat) :
    Delimits (do
      let c ← get
      if n > c.rest.length then Reader.refuse (.sequenceTooLong n c.offset)
      Reader.items r 0 n) where
  spells := ⟨_, .itemsWithin hr hne n⟩
  truncated := by
    intro start bs as offset hread cut hcut hne
    change (if n > bs.length then Reader.refuse (.sequenceTooLong n start)
      else Reader.items r 0 n) ⟨start, bs⟩ = _ at hread
    change ((if n > cut.length then Reader.refuse (.sequenceTooLong n start)
      else Reader.items r 0 n) ⟨start, cut⟩).Truncated
    -- too short a rest for the items is found out before any of them is read
    by_cases hn : n > cut.length
    · rw [if_pos hn]
      exact ⟨_, rfl, rfl⟩
    · have hle := hcut.length_le
      rw [if_neg (by omega)] at hread
      rw [if_neg hn]
      exact (h.items 0 n).truncated hread cut hcut hne

lemma sequence (hr : r.Spells W) (hne : ∀ a bs, W a bs → bs ≠ []) (h : r.Delimits) :
    (Reader.sequence r).Delimits := compact.bind fun n => itemsWithin hr hne h n

lemma selectors : Reader.selectors.Delimits := by
  refine (sequence (Spells.byte.bind fun b _ => Spells.pure b.toInt8) ?_
    (byte.bind fun _ => pure _)).field _
  rintro s _ ⟨b, _, _, rfl, -, rfl⟩
  exact List.cons_ne_nil _ _

/-! ### Marks of single bytes -/

lemma tag (t : NodeTag) : (Reader.tag t).Delimits :=
  offset (.tag t) fun _ => byte.bind fun _ => ite ((refuse _ _).field _) (pure ())

lemma symbol [Vocabulary α] : (Reader.symbol : Reader α).Delimits := by
  refine byte.bind fun found => ?_
  split
  · exact pure _
  · exact refuse _ _

lemma variant {variants : List NodeTag} (hnodup : variants.Nodup) (hlen : variants.length ≤ 256) :
    (Reader.variant variants).Delimits := by
  refine offset (.variant variants hnodup hlen) fun start => byte.bind fun found => ?_
  split
  · exact pure _
  · exact refuse _ _

lemma flag (what : String) : (Reader.flag what).Delimits :=
  offset (.flag what) fun _ => byte.bind fun _ => ite (refuse _ _) (pure _)

lemma optional (hr : r.Delimits) : (Reader.optional r).Delimits :=
  (flag "option").bind fun _ => ite (hr.bind fun _ => pure _) (pure none)

/-- Reading the bytes of a value only up to some place is refused as truncated. -/
lemma run_truncated (h : r.Delimits) {bs : Bytes} {a : α} (hrun : r.run bs = .ok a) {cut : Bytes}
    (hcut : cut <+: bs) (hne : cut ≠ bs) : (r.run cut).Truncated := by
  obtain ⟨W, hW⟩ := h.spells
  have hread := hW.read (hW.run_eq_ok_iff.mp hrun) 0 []
  rw [List.append_nil] at hread
  obtain ⟨fault, hfault, hkind⟩ := h.truncated hread cut hcut hne
  exact ⟨fault, by rw [run, hfault], hkind⟩

end Delimits

end Reader

/-! ### Nodes -/

open Reader (Spells Delimits)

lemma NormalInput.reader_delimits : reader.Delimits :=
  (Delimits.tag _).bind fun _ => (Delimits.byte.field _).bind fun _ =>
    Delimits.selectors.bind fun _ => .pure _

lemma Input.reader_delimits : reader.Delimits := by
  refine (Delimits.variant (by decide) (by decide)).bind fun t => ?_
  split
  · exact NormalInput.reader_delimits.bind fun _ => .pure _
  · exact (Delimits.tag _).bind fun _ => (Delimits.blob.field _).bind fun _ => .pure _
  · exact (Delimits.tag _).bind fun _ => (Delimits.blob.field _).bind fun _ => .pure _
  · exact (Delimits.tag _).bind fun _ => (Delimits.blob.field _).bind fun _ =>
      Delimits.selectors.bind fun _ => .pure _
  · exact (Delimits.tag _).bind fun _ => Delimits.selectors.bind fun _ => .pure _

lemma Call.reader_delimits : reader.Delimits := by
  refine (Delimits.variant (by decide) (by decide)).bind fun t => (Delimits.tag t).bind fun _ => ?_
  split
  · exact (Delimits.blob.field _).bind fun _ => .pure _
  · exact (NormalInput.reader_delimits.field _).bind fun _ => .pure _
  · exact .pure _
  · exact (Delimits.blob.field _).bind fun _ => .pure _

lemma Proposition.reader_delimits : reader.Delimits :=
  (Delimits.tag _).bind fun _ => (Call.reader_delimits.field _).bind fun _ =>
    ((Delimits.sequence Input.reader_spells (fun _ _ => Input.encode_ne_nil)
      Input.reader_delimits).field _).bind fun _ =>
    (((Delimits.flag "bool").optional).field _).bind fun _ => .pure _

lemma Entry.reader_delimits : reader.Delimits := by
  refine .offset Entry.reader_spells fun start => Delimits.byte.bind fun found => ?_
  refine .ite (Proposition.reader_delimits.bind fun _ => .pure _) (.ite ?_ (.refuse _ _))
  exact Delimits.blob.bind fun _ => .pure _

lemma Wire.names_delimits : (Reader.sequence Reader.blob).Delimits :=
  .sequence Spells.blob (fun _ _ => Wire.blob_ne_nil) .blob

lemma Contract.reader_delimits : reader.Delimits :=
  (Delimits.tag _).bind fun _ => (Delimits.blob.field _).bind fun _ =>
    (Delimits.blob.field _).bind fun _ => (Delimits.symbol.field _).bind fun _ =>
    (Wire.names_delimits.field _).bind fun _ =>
    ((Delimits.sequence Entry.reader_spells (fun _ _ => Entry.encode_ne_nil)
      Entry.reader_delimits).field _).bind fun _ =>
    ((Delimits.sequence NormalInput.reader_spells (fun _ _ => NormalInput.encode_ne_nil)
      NormalInput.reader_delimits).field _).bind fun _ => .ofOutcome _

lemma Constant.reader_delimits : reader.Delimits :=
  (Delimits.symbol.field _).bind fun _ => (Delimits.blob.field _).bind fun _ => .pure _

lemma Predicate.reader_delimits : reader.Delimits :=
  (Delimits.tag _).bind fun _ => (Delimits.blob.field _).bind fun _ =>
    (Wire.names_delimits.field _).bind fun _ =>
    ((Delimits.sequence Contract.reader_spells (fun _ _ h => Contract.encode_ne_nil h.2)
      Contract.reader_delimits).field _).bind fun _ =>
    ((Delimits.sequence Constant.reader_spells (fun _ _ => Constant.encode_ne_nil)
      Constant.reader_delimits).optional.field _).bind fun _ =>
    (Delimits.blob.field _).bind fun _ => .ofOutcome _

/-! ### Slots -/

namespace Slot

variable {s : Slot} {x : s.Value} {bs rest cut : Bytes} {f : Fault}

lemma reader_delimits (s : Slot) : s.reader.Delimits := by
  cases s with
  | predicate => exact Predicate.reader_delimits
  | contract => exact Contract.reader_delimits
  | proposition => exact Proposition.reader_delimits
  | constant => exact Constant.reader_delimits
  | normalInput => exact NormalInput.reader_delimits
  | compiledInput => exact Input.reader_delimits
  | predicateCall => exact Call.reader_delimits

lemma decode_truncated (h : s.decode bs = .ok x) (hcut : cut <+: bs) (hne : cut ≠ bs) :
    (Node.decode s cut).Truncated := by
  obtain ⟨f, hf, hkind⟩ := s.reader_delimits.run_truncated h hcut hne
  exact ⟨f, by rw [Node.decode, decode, hf]; rfl, hkind⟩

/-- Bytes behind a binary form are noticed when all of it has been read. -/
lemma decode_append (h : s.decode bs = .ok x) (hrest : rest ≠ []) :
    Node.decode s (bs ++ rest) = refuse (.trailingBytes rest.length bs.length) := by
  have hread := s.reader_spells.read (decode_eq_ok_iff.mp h) 0 rest
  rw [Nat.zero_add] at hread
  have hrest' : rest.isEmpty = false := by simpa using hrest
  rw [Node.decode, decode, Reader.run, hread]
  simp only [hrest', Bool.false_eq_true, if_false]
  rfl

/-- Nothing but a binary form in front of other bytes is reported to have bytes behind it. -/
lemma exists_prefix_of_trailing (h : Node.decode s bs = .error (.fault f))
    (hkind : f.cause.kind = .trailingBytes) :
    ∃ x front, s.WellFormed x ∧ s.encode x = .ok front ∧ front <+: bs ∧ front ≠ bs := by
  rw [Node.decode, decode, Reader.run] at h
  split at h
  · next e he =>
    cases h
    have hin := (s.reader_failsInKind _ _ he).1
    rw [hkind] at hin
    exact absurd hin (by decide)
  · next x c hread =>
    obtain ⟨front, ⟨hwf, hencode⟩, hbs, -⟩ := (s.reader_spells ..).mp hread
    split at h
    · cases h
    · next hrest =>
      refine ⟨x, front, hwf, hencode, ⟨c.rest, hbs.symm⟩, ?_⟩
      intro heq
      rw [heq, List.self_eq_append_right] at hbs
      exact hrest (by rw [hbs]; rfl)

/-- The binary form of a well-formed value cannot be cut or extended unnoticed: a part of it is
refused as truncated, and bytes behind it are refused as trailing ones. Only a binary form of the
slot in front of other bytes is refused that way. -/
theorem decode_cut_or_extended (s : Slot) :
    (∀ x, s.WellFormed x → s.Countable x → ∃ bs, s.encodeNode (s.toNode x) = .ok bs ∧
      (∀ cut, cut <+: bs → cut ≠ bs →
        ∃ f, Node.decode s cut = .error (.fault f) ∧ f.cause.kind = .truncatedInput) ∧
      ∀ rest, rest ≠ [] →
        ∃ f, Node.decode s (bs ++ rest) = .error (.fault f) ∧ f.cause.kind = .trailingBytes) ∧
    ∀ bs f, Node.decode s bs = .error (.fault f) → f.cause.kind = .trailingBytes →
      ∃ x front, s.WellFormed x ∧ s.encodeNode (s.toNode x) = .ok front ∧
        front <+: bs ∧ front ≠ bs := by
  constructor
  -- what is encoded is read back, so a cut is truncated and more bytes are left over
  · intro x hwf hcount
    obtain ⟨bs, hencode⟩ := (s.exists_encode_iff x).mpr hcount
    have hdecode : s.decode bs = .ok x := decode_eq_ok_iff.mpr ⟨hwf, hencode⟩
    refine ⟨bs, by rw [encodeNode_toNode, hencode], ?_, ?_⟩
    · intro cut hcut hne
      exact decode_truncated hdecode hcut hne
    · intro rest hrest
      exact ⟨_, decode_append hdecode hrest, rfl⟩
  · intro bs f h hkind
    obtain ⟨x, front, hwf, hencode, hfront⟩ := exists_prefix_of_trailing h hkind
    exact ⟨x, front, hwf, by rw [encodeNode_toNode, hencode], hfront⟩

theorem decode_cut_or_extended_everyInput :
    Slot.contract.WellFormed everyInput ∧ Slot.contract.Countable everyInput ∧
    (∃ bs, Slot.contract.encodeNode (Slot.contract.toNode everyInput) = .ok bs ∧ bs ≠ [] ∧
      (∃ f, Node.decode .contract [] = .error (.fault f) ∧ f.cause.kind = .truncatedInput) ∧
      ∃ f, Node.decode .contract (bs ++ [0]) = .error (.fault f) ∧
        f.cause.kind = .trailingBytes) ∧
    ∃ x front, Slot.predicateCall.encodeNode (Slot.predicateCall.toNode x) = .ok front ∧
      front <+: [2, 5, 0] ∧ front ≠ [2, 5, 0] := by
  have hwf : Slot.contract.WellFormed everyInput := .quantifier rfl _ _ _
  have hcount : Slot.contract.Countable everyInput :=
    (Slot.contract.exists_encode_iff everyInput).mp ⟨_, rfl⟩
  obtain ⟨bs, hencode, hcut, hextended⟩ :=
    (decode_cut_or_extended .contract).1 everyInput hwf hcount
  have hne : bs ≠ [] := Contract.encode_ne_nil hencode
  obtain ⟨x, front, -, hfront⟩ := (decode_cut_or_extended .predicateCall).2 [2, 5, 0] _ rfl rfl
  exact ⟨hwf, hcount, ⟨bs, hencode, hne, hcut [] List.nil_prefix hne.symm,
    hextended [0] (List.cons_ne_nil _ _)⟩, x, front, hfront⟩

end Slot

end Clausal
