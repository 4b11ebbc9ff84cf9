import Clausal.Proofs.Symbol
import Clausal.Proofs.Wire.Compact
import Clausal.Wire.Decoding
import Clausal.Wire.Encoding
import Mathlib.Algebra.Group.Int.Defs

/-!
# Readers and the spellings they accept

A reader is characterised by a relation between values and their spellings: it answers a value
exactly where a spelling of that value stands, whatever follows, and stops behind the spelling. The
rules below give the relation of a reader from those of the readers it is built from. Read on their
own, compact integers and their forms determine each other.
-/

namespace Clausal

namespace Reader

variable {α β : Type} {r : Reader α} {W W' : α → Bytes → Prop}

/-- The reader answers `a` exactly where a spelling of `a` stands, and stops behind it; `W a bs`
says that `bs` spells `a`. -/
def Spells (r : Reader α) (W : α → Bytes → Prop) : Prop :=
  ∀ start input a c, r ⟨start, input⟩ = .ok (a, c) ↔
    ∃ bs, W a bs ∧ input = bs ++ c.rest ∧ c.offset = start + bs.length

namespace Spells

lemma congr (hr : r.Spells W) (h : ∀ a bs, W a bs ↔ W' a bs) : r.Spells W' := by
  intro start input a c
  simp only [hr start input a c, h]

lemma true_and (hr : r.Spells W) : r.Spells fun a bs => True ∧ W a bs :=
  hr.congr fun a bs => by simp

/-- A spelling in front of other bytes is read off them. -/
lemma read (hr : r.Spells W) {a : α} {bs : Bytes} (h : W a bs) (start : Nat) (rest : Bytes) :
    r ⟨start, bs ++ rest⟩ = .ok (a, ⟨start + bs.length, rest⟩) :=
  (hr ..).mpr ⟨bs, h, rfl, rfl⟩

/-- What stands in front of other bytes is spelled in one way only. -/
lemma append_inj (hr : r.Spells W) {a b : α} {bs bs' rest rest' : Bytes} (h : W a bs)
    (h' : W b bs') (heq : bs ++ rest = bs' ++ rest') : a = b ∧ bs = bs' ∧ rest = rest' := by
  have hread := hr.read h 0 rest
  rw [heq, hr.read h' 0 rest'] at hread
  simp only [Except.ok.injEq, Prod.mk.injEq, Cursor.mk.injEq] at hread
  obtain ⟨rfl, -, rfl⟩ := hread
  exact ⟨rfl, List.append_cancel_right heq, rfl⟩

/-- All of the bytes are read exactly when they are a spelling. -/
lemma run_eq_ok_iff (hr : r.Spells W) {a : α} {bs : Bytes} : r.run bs = .ok a ↔ W a bs := by
  constructor
  · intro h
    unfold run at h
    split at h
    · simp at h
    · next b c hc =>
      obtain ⟨bs', hb, hbs, -⟩ := (hr ..).mp hc
      split at h
      · next hrest =>
        cases h
        rw [List.isEmpty_iff] at hrest
        rwa [hbs, hrest, List.append_nil]
      · simp at h
  · intro h
    have hread := hr.read h 0 []
    rw [List.append_nil] at hread
    simp [run, hread]

/-! ### Rules -/

lemma pure (a : α) : (Pure.pure a : Reader α).Spells fun b bs => b = a ∧ bs = [] := by
  rintro start input b ⟨offset, rest⟩
  change (Except.ok (a, (⟨start, input⟩ : Cursor)) : Outcome (α × Cursor)) = _ ↔ _
  simp only [Except.ok.injEq, Prod.mk.injEq, Cursor.mk.injEq]
  constructor
  · rintro ⟨rfl, rfl, rfl⟩
    exact ⟨[], ⟨rfl, rfl⟩, rfl, rfl⟩
  · rintro ⟨_, ⟨rfl, rfl⟩, rfl, rfl⟩
    exact ⟨rfl, rfl, rfl⟩

/-- One reader after another reads one spelling after another. The second reader matters only for
values that the first can answer. -/
lemma bind {f : α → Reader β} {V : α → β → Bytes → Prop} (hr : r.Spells W)
    (hf : ∀ a, (∃ bs, W a bs) → (f a).Spells (V a)) :
    (r >>= f).Spells fun b bs => ∃ a bs₁ bs₂, W a bs₁ ∧ V a b bs₂ ∧ bs = bs₁ ++ bs₂ := by
  intro start input b c
  change ((r ⟨start, input⟩ : Outcome (α × Cursor)) >>= fun p => f p.1 p.2) = _ ↔ _
  rw [Outcome.bind_eq_ok]
  constructor
  -- what the first reader takes is the front of what both take
  · rintro ⟨⟨a, c'⟩, ha, hb⟩
    obtain ⟨bs₁, hW, rfl, hoffset⟩ := (hr ..).mp ha
    obtain ⟨bs₂, hV, hrest, hoffset'⟩ := (hf a ⟨bs₁, hW⟩ ..).mp hb
    refine ⟨bs₁ ++ bs₂, ⟨a, bs₁, bs₂, hW, hV, rfl⟩, ?_, ?_⟩
    · rw [hrest, List.append_assoc]
    · rw [hoffset', hoffset, List.length_append, Nat.add_assoc]
  · rintro ⟨_, ⟨a, bs₁, bs₂, hW, hV, rfl⟩, rfl, hoffset⟩
    refine ⟨(a, ⟨start + bs₁.length, bs₂ ++ c.rest⟩), ?_, ?_⟩
    · rw [List.append_assoc]
      exact hr.read hW start _
    · refine (hf a ⟨bs₁, hW⟩ ..).mpr ⟨bs₂, hV, rfl, ?_⟩
      rw [hoffset, List.length_append, Nat.add_assoc]

/-- A reader that fails everywhere spells nothing. -/
lemma refuse (cause : Cause) (path : Path) :
    (Reader.refuse cause path : Reader α).Spells fun _ _ => False := by
  intro start input a c
  simp [Reader.refuse]

lemma field (name : String) (hr : r.Spells W) : (Reader.field name r).Spells W := by
  intro start input a c
  rw [Reader.field, inField_eq_ok]
  exact hr ..

lemma item (i : Nat) (hr : r.Spells W) : (Reader.item i r).Spells W := by
  intro start input a c
  rw [Reader.item, inItem_eq_ok]
  exact hr ..

/-- What has been read so far may be refused. -/
lemma failIf {p : Prop} [Decidable p] {fail : Reader α} (hfail : fail.Spells fun _ _ => False)
    (hr : ¬ p → r.Spells W) : (if p then fail else r).Spells fun a bs => ¬ p ∧ W a bs := by
  split
  · next hp => exact hfail.congr fun a bs => by simp [hp]
  · next hp => exact (hr hp).congr fun a bs => by simp [hp]

/-- The offset is for messages only. -/
lemma offset {f : Nat → Reader α} (hf : ∀ n, (f n).Spells W) : (Reader.offset >>= f).Spells W :=
  fun start input a c => hf start start input a c

lemma ofOutcome (x : Outcome α) : (Reader.ofOutcome x).Spells fun a bs => x = .ok a ∧ bs = [] := by
  cases x with
  | ok a => exact (pure a).congr fun b bs => by simp [eq_comm]
  | error e =>
    intro start input a c
    simp [Reader.ofOutcome, Except.map]

/-! ### Bytes and numbers -/

lemma byte : Reader.byte.Spells fun b bs => bs = [b] := by
  rintro start (_ | ⟨b, input⟩) a ⟨offset, rest⟩
  · simp [Reader.byte]
  · simp only [Reader.byte, Except.ok.injEq, Prod.mk.injEq, Cursor.mk.injEq]
    constructor
    · rintro ⟨rfl, rfl, rfl⟩
      exact ⟨_, rfl, rfl, rfl⟩
    · rintro ⟨_, rfl, h, rfl⟩
      cases h
      exact ⟨rfl, rfl, rfl⟩

lemma take (n : Nat) : (Reader.take n).Spells fun a bs => bs = a ∧ a.length = n := by
  rintro start input a ⟨offset, rest⟩
  simp only [Reader.take]
  split
  -- too few bytes are left, so that nothing of this length stands in front
  · next h =>
    rw [List.length_take] at h
    simp only [Outcome.refuse_ne_ok, false_iff, not_exists, not_and]
    rintro bs ⟨rfl, hlen⟩ rfl -
    rw [List.length_append] at h
    omega
  · next h =>
    simp only [Except.ok.injEq, Prod.mk.injEq, Cursor.mk.injEq]
    constructor
    · rintro ⟨rfl, rfl, rfl⟩
      have hlen : (input.take n).length = n := by
        have := List.length_take_le n input
        omega
      exact ⟨_, ⟨rfl, hlen⟩, (List.take_append_drop n input).symm, by rw [hlen]⟩
    · rintro ⟨_, ⟨rfl, rfl⟩, rfl, rfl⟩
      exact ⟨List.take_left, rfl, List.drop_left⟩

/-- Some bytes may be taken for a value that depends on them alone. -/
lemma taken {k : Nat} {f : Bytes → Reader α} {V : Bytes → α → Prop}
    (hf : ∀ bs, (f bs).Spells fun a more => V bs a ∧ more = []) :
    (Reader.take k >>= f).Spells fun a bs => bs.length = k ∧ V bs a := by
  refine ((take k).bind fun bs _ => hf bs).congr fun a bs => ?_
  constructor
  · rintro ⟨bs, _, _, ⟨rfl, hlen⟩, ⟨hV, rfl⟩, rfl⟩
    rw [List.append_nil]
    exact ⟨hlen, hV⟩
  · rintro ⟨hlen, hV⟩
    exact ⟨bs, bs, [], ⟨rfl, hlen⟩, ⟨hV, rfl⟩, (List.append_nil bs).symm⟩

lemma minimal (start n least : Nat) :
    (Reader.minimal start n least).Spells fun m bs => (m = n ∧ least ≤ m) ∧ bs = [] := by
  refine (failIf (refuse _ _) fun _ => pure n).congr fun m bs => ?_
  rw [Nat.not_lt]
  constructor
  · rintro ⟨hle, rfl, rfl⟩
    exact ⟨⟨rfl, hle⟩, rfl⟩
  · rintro ⟨⟨rfl, hle⟩, rfl⟩
    exact ⟨hle, rfl, rfl⟩

lemma compact : Reader.compact.Spells fun n bs => Compact.encode n = .ok bs := by
  refine (offset fun start => byte.bind (V := fun first n more => Compact.Completes first n more)
    fun first _ => ?_).congr fun n bs => ?_
  -- the two lowest bits of the first byte choose among the four modes
  · have hmode : first.toNat % 4 = 0 ∨ first.toNat % 4 = 1 ∨ first.toNat % 4 = 2 ∨
        first.toNat % 4 = 3 := by omega
    rcases hmode with h | h | h | h <;> simp only [Compact.Completes, h]
    · exact pure _
    · exact taken fun more => minimal start _ _
    · exact taken fun more => minimal start _ _
    · exact taken fun raw => (failIf (refuse _ _) fun _ => minimal start _ _).congr
        fun n bs => and_assoc.symm
  · rw [Compact.encode_eq_ok_iff]
    constructor
    · rintro ⟨first, _, more, rfl, h, rfl⟩
      exact ⟨first, more, rfl, h⟩
    · rintro ⟨first, more, rfl, h⟩
      exact ⟨first, _, more, rfl, h, rfl⟩

lemma blob : Reader.blob.Spells fun a bs => Wire.blob a = .ok bs := by
  refine (compact.bind fun n _ => take n).congr fun a bs => ?_
  simp only [Wire.blob, Outcome.bind_eq_ok, Outcome.pure_eq_ok]
  constructor
  · rintro ⟨_, bs₁, _, h, ⟨rfl, rfl⟩, rfl⟩
    exact ⟨bs₁, h, rfl⟩
  · rintro ⟨bs₁, h, rfl⟩
    exact ⟨_, bs₁, a, h, ⟨rfl, rfl⟩, rfl⟩

/-! ### Sequences -/

lemma items (hr : r.Spells W) (i n : Nat) :
    (Reader.items r i n).Spells fun as bs =>
      as.length = n ∧ ∃ bss, List.Forall₂ W as bss ∧ bs = bss.flatten := by
  -- on the number of items that are still to be read
  induction n generalizing i with
  | zero =>
    refine (pure []).congr fun as bs => ?_
    constructor
    · rintro ⟨rfl, rfl⟩
      exact ⟨rfl, [], .nil, rfl⟩
    · rintro ⟨hlen, bss, hbss, rfl⟩
      obtain rfl := List.length_eq_zero_iff.mp hlen
      cases hbss
      exact ⟨rfl, rfl⟩
  | succ n ih =>
    refine ((hr.item i).bind fun a _ => (ih (i + 1)).bind fun as _ => pure _).congr
      fun as bs => ?_
    constructor
    · rintro ⟨a, bs₁, _, ha, ⟨as', _, _, ⟨hlen, bss, hbss, rfl⟩, ⟨rfl, rfl⟩, rfl⟩, rfl⟩
      exact ⟨by rw [List.length_cons, hlen], bs₁ :: bss, .cons ha hbss, by simp⟩
    · rintro ⟨hlen, bss, hbss, rfl⟩
      cases hbss with
      | nil => simp at hlen
      | cons ha hbss =>
        exact ⟨_, _, _, ha, ⟨_, _, [], ⟨by simpa using hlen, _, hbss, rfl⟩, ⟨rfl, rfl⟩, rfl⟩,
          by simp⟩

lemma length_le_length_flatten {as : List α} {bss : List Bytes} (h : List.Forall₂ W as bss)
    (hne : ∀ a bs, W a bs → bs ≠ []) : as.length ≤ bss.flatten.length := by
  induction h with
  | nil => simp
  | cons ha _ ih =>
    have hpos := List.length_pos_iff.mpr (hne _ _ ha)
    rw [List.flatten_cons, List.length_append, List.length_cons]
    omega

/-- Where no spelling of an item is empty, the rest of the bytes is never too short for a number of
items that can be read. -/
lemma itemsWithin (hr : r.Spells W) (hne : ∀ a bs, W a bs → bs ≠ []) (n : Nat) :
    Spells (do
      let c ← get
      if n > c.rest.length then Reader.refuse (.sequenceTooLong n c.offset)
      Reader.items r 0 n) fun as bs =>
        as.length = n ∧ ∃ bss, List.Forall₂ W as bss ∧ bs = bss.flatten := by
  intro start input as c
  have hguard := failIf (p := n > input.length)
    (refuse (.sequenceTooLong n start) []) (fun _ => items hr 0 n)
  refine (hguard start input as c).trans ⟨?_, ?_⟩
  · rintro ⟨bs, ⟨-, hbs⟩, hinput, hoffset⟩
    exact ⟨bs, hbs, hinput, hoffset⟩
  · rintro ⟨bs, ⟨hlen, bss, hbss, hbs⟩, hinput, hoffset⟩
    refine ⟨bs, ⟨?_, hlen, bss, hbss, hbs⟩, hinput, hoffset⟩
    -- every item takes a byte at least, so no more items are spelled than bytes are left
    have hle := length_le_length_flatten hbss hne
    rw [hinput, hbs, List.length_append]
    omega

lemma sequence (hr : r.Spells W) (hne : ∀ a bs, W a bs → bs ≠ []) :
    (Reader.sequence r).Spells fun as bs => ∃ n bss, Compact.encode as.length = .ok n ∧
      List.Forall₂ W as bss ∧ bs = n ++ bss.flatten := by
  refine (compact.bind fun n _ => itemsWithin hr hne n).congr fun as bs => ?_
  constructor
  · rintro ⟨_, n, _, hn, ⟨rfl, bss, hbss, rfl⟩, rfl⟩
    exact ⟨n, bss, hn, hbss, rfl⟩
  · rintro ⟨n, bss, hn, hbss, rfl⟩
    exact ⟨_, n, _, hn, ⟨rfl, bss, hbss, rfl⟩, rfl⟩

/-- Items that satisfy `P` and are spelled by their binary form make a sequence that is spelled by
its own. -/
lemma sequenceWith {P : α → Prop} {encode : α → Outcome Bytes}
    (hr : r.Spells fun a bs => P a ∧ encode a = .ok bs)
    (hne : ∀ a bs, encode a = .ok bs → bs ≠ []) :
    (Reader.sequence r).Spells fun as bs =>
      (∀ a ∈ as, P a) ∧ Wire.sequence encode as = .ok bs := by
  refine (sequence hr fun a bs h => hne a bs h.2).congr fun as bs => ?_
  simp only [Wire.sequence, Outcome.bind_eq_ok, Outcome.pure_eq_ok, Outcome.mapM_eq_ok,
    List.forall₂_and_left]
  constructor
  · rintro ⟨n, bss, hn, ⟨hP, hbss⟩, rfl⟩
    exact ⟨hP, n, hn, bss, hbss, rfl⟩
  · rintro ⟨hP, n, hn, bss, hbss, rfl⟩
    exact ⟨n, bss, hn, ⟨hP, hbss⟩, rfl⟩

lemma sequenceOf {encode : α → Outcome Bytes} (hr : r.Spells fun a bs => encode a = .ok bs)
    (hne : ∀ a bs, encode a = .ok bs → bs ≠ []) :
    (Reader.sequence r).Spells fun as bs => Wire.sequence encode as = .ok bs := by
  refine (sequenceWith hr.true_and hne).congr fun as bs => ?_
  simp

lemma selectors : Reader.selectors.Spells fun cs bs => Wire.selectors cs = .ok bs := by
  have hselector : Spells (do let b ← Reader.byte; return b.toInt8) fun s bs =>
      (.ok [s.toUInt8] : Outcome Bytes) = .ok bs := by
    refine (byte.bind fun b _ => pure _).congr fun s bs => ?_
    rw [Except.ok.injEq]
    constructor
    · rintro ⟨b, _, _, rfl, ⟨rfl, rfl⟩, rfl⟩
      simp
    · rintro rfl
      exact ⟨s.toUInt8, _, [], rfl, ⟨by simp, rfl⟩, rfl⟩
  refine (sequenceOf hselector ?_).field "children"
  rintro s _ ⟨rfl⟩
  exact List.cons_ne_nil _ _

/-! ### Marks of single bytes -/

lemma tag (t : NodeTag) : (Reader.tag t).Spells fun _ bs => bs = [Vocabulary.byte t] := by
  refine (offset fun start => byte.bind fun found _ =>
    failIf (p := found ≠ Vocabulary.byte t) ((refuse _ _).field "type") fun _ => pure ()).congr
      fun u bs => ?_
  simp only [ne_eq, not_not]
  constructor
  · rintro ⟨_, _, _, rfl, ⟨rfl, -, rfl⟩, rfl⟩
    rfl
  · rintro rfl
    exact ⟨_, _, [], rfl, ⟨rfl, trivial, rfl⟩, rfl⟩

lemma symbol [Vocabulary α] [DecidableEq α] [Vocabulary.Lawful α] :
    (Reader.symbol : Reader α).Spells fun s bs => bs = [Vocabulary.byte s] := by
  refine (byte.bind (V := fun b s bs => Vocabulary.ofIndex? b.toNat = some s ∧ bs = [])
    fun found _ => ?_).congr fun s bs => ?_
  -- only bytes that number a symbol are taken, and each symbol has its own
  · split
    · next s hs => exact (pure s).congr fun s' bs => by rw [hs, Option.some.injEq, eq_comm]
    · next hs => exact (refuse _ _).congr fun s' bs => by simp [hs]
  · simp only [Vocabulary.ofIndex?_toNat_eq_some_iff]
    constructor
    · rintro ⟨_, _, _, rfl, ⟨rfl, rfl⟩, rfl⟩
      rfl
    · rintro rfl
      exact ⟨_, _, [], rfl, ⟨rfl, rfl⟩, rfl⟩

lemma variant (variants : List NodeTag) (hnodup : variants.Nodup) (hlen : variants.length ≤ 256) :
    (Reader.variant variants).Spells fun t bs =>
      t ∈ variants ∧ bs = [Wire.variant variants t] := by
  refine (offset fun start => byte.bind (V := fun b t bs => variants[b.toNat]? = some t ∧ bs = [])
    fun found _ => ?_).congr fun t bs => ?_
  · split
    · next t ht => exact (pure t).congr fun t' bs => by rw [ht, Option.some.injEq, eq_comm]
    · next ht => exact (refuse _ _).congr fun t' bs => by simp [ht]
  · simp only [getElem?_toNat_eq_some_iff hnodup hlen]
    constructor
    · rintro ⟨_, _, _, rfl, ⟨⟨hmem, rfl⟩, rfl⟩, rfl⟩
      exact ⟨hmem, rfl⟩
    · rintro ⟨hmem, rfl⟩
      exact ⟨_, _, [], rfl, ⟨⟨hmem, rfl⟩, rfl⟩, rfl⟩

lemma flag (what : String) :
    (Reader.flag what).Spells fun b bs => bs = [if b then 1 else 0] := by
  -- one bit of the byte is used, and every higher one is refused
  refine (offset fun start => byte.bind fun found _ =>
    failIf (p := found.toNat > 1) (refuse _ _) fun _ => pure (found == 1)).congr fun b bs => ?_
  constructor
  · rintro ⟨found, _, _, rfl, ⟨hle, rfl, rfl⟩, rfl⟩
    have hfound : found = 0 ∨ found = 1 := by
      rw [← UInt8.toNat_inj, ← UInt8.toNat_inj]
      simp
      omega
    rcases hfound with rfl | rfl <;> rfl
  · rintro rfl
    exact ⟨_, _, [], rfl, ⟨by cases b <;> decide, by cases b <;> rfl, rfl⟩, rfl⟩

lemma optional (hr : r.Spells W) :
    (Reader.optional r).Spells fun o bs =>
      match o with
      | none => bs = [0]
      | some a => ∃ bs', W a bs' ∧ bs = 1 :: bs' := by
  refine ((flag "option").bind (V := fun b o bs =>
    if b then ∃ a, W a bs ∧ o = some a else o = none ∧ bs = []) fun b _ => ?_).congr
      fun o bs => ?_
  · cases b with
    | true =>
      refine (hr.bind fun a _ => pure (some a)).congr fun o bs => ?_
      simp
    | false => exact pure none
  · cases o with
    | none => simp
    | some a => simp

end Spells

end Reader

/-! ### Compact integers on their own -/

namespace Compact

lemma limit_eq : (limit : Int) = 2 ^ 536 := by
  rw [limit, Int.natCast_pow]
  rfl

lemma decode_eq_ok_iff {bs : Bytes} {n : Nat} : decode bs = .ok n ↔ encode n = .ok bs :=
  Reader.Spells.compact.run_eq_ok_iff

lemma encodeInt_of_neg {n : Int} (h : n < 0) :
    encodeInt n = refuseShowing n (.compactNegative n) := if_pos h

lemma encodeInt_natCast (n : Nat) : encodeInt n = encode n := by
  have hn : ¬(n : Int) < 0 := by omega
  rw [encodeInt, if_neg hn, Int.toNat_natCast]

/-- Of all integers those from zero up to `2 ^ 536` have a compact form, and the others are refused;
decoding and encoding are inverse to each other, so no compact form is left out and none stands for
two integers. -/
theorem exists_decode_iff_encodeInt :
    (∀ n : Int, (∃ bs, encodeInt n = .ok bs) ↔ 0 ≤ n ∧ n < 2 ^ 536) ∧
    (∀ n : Int, (∃ e, encodeInt n = .error e) ↔ n < 0 ∨ 2 ^ 536 ≤ n) ∧
    ∀ (bs : Bytes) (n : Int),
      (∃ m : Nat, decode bs = .ok m ∧ (m : Int) = n) ↔ encodeInt n = .ok bs := by
  -- negative numbers are no natural numbers, and all others go by their size
  have hok (n : Int) : (∃ bs, encodeInt n = .ok bs) ↔ 0 ≤ n ∧ n < 2 ^ 536 := by
    by_cases hn : n < 0
    · refine iff_of_false ?_ fun h => Int.not_lt.mpr h.1 hn
      simp [encodeInt_of_neg hn]
    · obtain ⟨m, rfl⟩ := Int.eq_ofNat_of_zero_le (Int.not_lt.mp hn)
      rw [encodeInt_natCast, exists_encode_iff, ← limit_eq]
      omega
  refine ⟨hok, fun n => ?_, fun bs n => ?_⟩
  · have herror : (∃ e, encodeInt n = .error e) ↔ ¬∃ bs, encodeInt n = .ok bs := by
      cases encodeInt n <;> simp
    rw [herror, hok, not_and_or, Int.not_le, Int.not_lt]
  · constructor
    · rintro ⟨m, hm, rfl⟩
      rw [encodeInt_natCast]
      exact decode_eq_ok_iff.mp hm
    · intro h
      obtain ⟨hn, -⟩ := (hok n).mp ⟨bs, h⟩
      obtain ⟨m, rfl⟩ := Int.eq_ofNat_of_zero_le hn
      rw [encodeInt_natCast] at h
      exact ⟨m, decode_eq_ok_iff.mpr h, rfl⟩

end Compact

end Clausal
