import Clausal.Text.Utf8
import Mathlib.Tactic.Lemma
import Mathlib.Tactic.SplitIfs

/-!
# Reading and writing UTF-8

The bytes that read as characters are exactly the bytes that these characters are written with.
-/

namespace Clausal.Utf8

/-! ### Bytes -/

lemma ByteRange.contains_iff {r : ByteRange} {b : UInt8} :
    r.contains b ↔ r.low.toNat ≤ b.toNat ∧ b.toNat ≤ r.high.toNat := by
  simp [ByteRange.contains, UInt8.le_iff_toNat_le]

/-- The ranges that a first byte announces, by its number. -/
lemma continuations_eq (b : UInt8) : continuations b =
  let n := b.toNat
  if n < 0x80 then some []
  else if n < 0xc2 then none
  else if n < 0xe0 then some [.tail]
  else if n = 0xe0 then some [⟨0xa0, 0xbf⟩, .tail]
  else if n = 0xed then some [⟨0x80, 0x9f⟩, .tail]
  else if n < 0xf0 then some [.tail, .tail]
  else if n = 0xf0 then some [⟨0x90, 0xbf⟩, .tail, .tail]
  else if n < 0xf4 then some [.tail, .tail, .tail]
  else if n = 0xf4 then some [⟨0x80, 0x8f⟩, .tail, .tail]
  else none := by
  unfold continuations
  simp only [UInt8.lt_iff_toNat_lt, ← UInt8.toNat_inj]
  rfl

/-- The second byte keeps clear of overlong forms, of surrogates and of numbers above U+10FFFF. -/
lemma continuations_cases {b : UInt8} {ranges : List ByteRange}
    (h : continuations b = some ranges) :
    (b.toNat < 0x80 ∧ ranges = []) ∨
    (0xc2 ≤ b.toNat ∧ b.toNat < 0xe0 ∧ ranges = [.tail]) ∨
    (∃ r, 0xe0 ≤ b.toNat ∧ b.toNat < 0xf0 ∧ ranges = [r, .tail] ∧ 0x80 ≤ r.low.toNat ∧
      r.high.toNat ≤ 0xbf ∧ (b.toNat = 0xe0 → 0xa0 ≤ r.low.toNat) ∧
      (b.toNat = 0xed → r.high.toNat ≤ 0x9f)) ∨
    (∃ r, 0xf0 ≤ b.toNat ∧ b.toNat ≤ 0xf4 ∧ ranges = [r, .tail, .tail] ∧ 0x80 ≤ r.low.toNat ∧
      r.high.toNat ≤ 0xbf ∧ (b.toNat = 0xf0 → 0x90 ≤ r.low.toNat) ∧
      (b.toNat = 0xf4 → r.high.toNat ≤ 0x8f)) := by
  -- the first byte stands in one of eight ranges, four of which have a narrower second byte
  rw [continuations_eq] at h
  dsimp only at h
  split_ifs at h <;> rw [Option.some.injEq] at h
  · exact .inl ⟨by assumption, h.symm⟩
  · exact .inr (.inl ⟨by omega, by assumption, h.symm⟩)
  · exact .inr (.inr (.inl ⟨_, by omega, by omega, h.symm, by decide, by decide,
      fun _ => by decide, by omega⟩))
  · exact .inr (.inr (.inl ⟨_, by omega, by omega, h.symm, by decide, by decide, by omega,
      fun _ => by decide⟩))
  · exact .inr (.inr (.inl ⟨_, by omega, by omega, h.symm, by decide, by decide, by omega,
      by omega⟩))
  · exact .inr (.inr (.inr ⟨_, by omega, by omega, h.symm, by decide, by decide,
      fun _ => by decide, by omega⟩))
  · exact .inr (.inr (.inr ⟨_, by omega, by omega, h.symm, by decide, by decide, by omega,
      by omega⟩))
  · exact .inr (.inr (.inr ⟨_, by omega, by omega, h.symm, by decide, by decide, by omega,
      fun _ => by decide⟩))

lemma leadBits_zero (b : UInt8) : leadBits b 0 = b.toNat := rfl

lemma leadBits_one (b : UInt8) : leadBits b 1 = b.toNat - 0xc0 := rfl

lemma leadBits_two (b : UInt8) : leadBits b 2 = b.toNat - 0xe0 := rfl

lemma leadBits_three (b : UInt8) : leadBits b 3 = b.toNat - 0xf0 := rfl

lemma ofNat_eq {b : UInt8} {n : Nat} (h : n = b.toNat) : UInt8.ofNat n = b := by
  rw [h, UInt8.ofNat_toNat]

lemma toNat_byte {n : Nat} (h : n < 256) : (UInt8.ofNat n).toNat = n := UInt8.toNat_ofNat_of_lt' h

/-! ### Characters -/

lemma isValid_toNat (c : Char) : c.toNat < 0xd800 ∨ 0xdfff < c.toNat ∧ c.toNat < 0x110000 := by
  have := c.valid
  simpa [UInt32.isValidChar, Nat.isValidChar] using this

lemma toNat_ofNat {n : Nat} (h : n < 0xd800 ∨ 0xdfff < n ∧ n < 0x110000) :
    (Char.ofNat n).toNat = n := by
  have hv : n.isValidChar := h
  rw [Char.ofNat, dif_pos hv]
  rfl

lemma encodeChar_eq (c : Char) : encodeChar c =
    let n := c.toNat
    if n < 0x80 then [UInt8.ofNat n]
    else if n < 0x800 then [UInt8.ofNat (0xc0 + n / 64), UInt8.ofNat (0x80 + n % 64)]
    else if n < 0x10000 then
      [UInt8.ofNat (0xe0 + n / 4096), UInt8.ofNat (0x80 + n / 64 % 64), UInt8.ofNat (0x80 + n % 64)]
    else [UInt8.ofNat (0xf0 + n / 262144), UInt8.ofNat (0x80 + n / 4096 % 64),
      UInt8.ofNat (0x80 + n / 64 % 64), UInt8.ofNat (0x80 + n % 64)] := by
  simp only [encodeChar, Nat.shiftRight_eq_div_pow, Nat.reducePow, Nat.pow_zero, Nat.div_one]

/-! ### Following the announced ranges -/

@[simp] lemma follow_nil (n k : Nat) (bs : Bytes) : follow n k [] bs = .complete n k := by
  cases bs <;> rfl

lemma follow_cons_eq_complete {n k m j : Nat} {r : ByteRange} {rs : List ByteRange} {bs : Bytes} :
    follow n k (r :: rs) bs = .complete m j ↔
      ∃ b bs', bs = b :: bs' ∧ r.contains b ∧
        follow (n * 64 + (b.toNat - 0x80)) (k + 1) rs bs' = .complete m j := by
  cases bs with
  | nil => simp [follow]
  | cons b bs =>
    by_cases h : r.contains b
    · simp only [follow, h, if_true, List.cons.injEq]
      constructor
      · intro h'
        exact ⟨b, bs, ⟨rfl, rfl⟩, h, h'⟩
      · rintro ⟨_, _, ⟨rfl, rfl⟩, -, h'⟩
        exact h'
    · simp [follow, h]

lemma follow_byte {n k m : Nat} {r : ByteRange} {rs : List ByteRange} (hlow : r.low.toNat ≤ m)
    (hhigh : m ≤ r.high.toNat) (bs : Bytes) :
    follow n k (r :: rs) (UInt8.ofNat m :: bs) = follow (n * 64 + (m - 0x80)) (k + 1) rs bs := by
  have hm : (UInt8.ofNat m).toNat = m := toNat_byte (by have := r.high.toNat_lt; omega)
  have hr : r.contains (UInt8.ofNat m) := ByteRange.contains_iff.mpr (by omega)
  rw [follow, if_pos hr, hm]

lemma follow_tail {n k m : Nat} {rs : List ByteRange} (hm : m < 64) (bs : Bytes) :
    follow n k (.tail :: rs) (UInt8.ofNat (0x80 + m) :: bs) =
      follow (n * 64 + m) (k + 1) rs bs := by
  have hlow : ByteRange.tail.low.toNat = 0x80 := rfl
  have hhigh : ByteRange.tail.high.toNat = 0xbf := rfl
  rw [follow_byte (by omega) (by omega), Nat.add_sub_cancel_left]

/-! ### One character -/

lemma step_eq_char_iff {b : UInt8} {bs : Bytes} {c : Char} {k : Nat} :
    step b bs = .char c k ↔ ∃ ranges n, continuations b = some ranges ∧
      follow (leadBits b ranges.length) 0 ranges bs = .complete n k ∧ Char.ofNat n = c := by
  unfold step
  cases hranges : continuations b with
  | none => simp
  | some ranges =>
    cases hfollow : follow (leadBits b ranges.length) 0 ranges bs with
    | complete n j =>
      simp [hfollow]
      grind
    | stopped j reason => simp [hfollow]

/-- A character is read only from the bytes that it is written with. -/
lemma encodeChar_of_step {b : UInt8} {bs : Bytes} {c : Char} {k : Nat} (h : step b bs = .char c k) :
    ∃ rest, b :: bs = encodeChar c ++ rest ∧ k + 1 = (encodeChar c).length := by
  obtain ⟨ranges, n, hranges, hfollow, rfl⟩ := step_eq_char_iff.mp h
  have htail : ByteRange.tail.low.toNat = 0x80 ∧ ByteRange.tail.high.toNat = 0xbf := ⟨rfl, rfl⟩
  -- by the number of bytes; the leading bits and the six of each tail give the character back
  rcases continuations_cases hranges with ⟨hb, rfl⟩ | ⟨hb, hb', rfl⟩ |
    ⟨r, hb, hb', rfl, hlow, hhigh, hlow', hhigh'⟩ |
    ⟨r, hb, hb', rfl, hlow, hhigh, hlow', hhigh'⟩ <;>
    simp only [follow_cons_eq_complete, ByteRange.contains_iff, follow_nil, List.length_cons,
      List.length_nil, Nat.reduceAdd, leadBits_zero, leadBits_one, leadBits_two, leadBits_three,
      Follow.complete.injEq, htail] at hfollow
  · obtain ⟨rfl, rfl⟩ := hfollow
    refine ⟨bs, ?_⟩
    rw [encodeChar_eq, toNat_ofNat (by omega)]
    simp only [if_pos hb, UInt8.ofNat_toNat]
    exact ⟨rfl, rfl⟩
  · obtain ⟨b₁, bs, rfl, hb₁, rfl, rfl⟩ := hfollow
    refine ⟨bs, ?_⟩
    rw [encodeChar_eq, toNat_ofNat (by omega)]
    dsimp only
    rw [if_neg (by omega), if_pos (by omega), ofNat_eq (b := b) (by omega),
      ofNat_eq (b := b₁) (by omega)]
    exact ⟨rfl, rfl⟩
  · obtain ⟨b₁, _, rfl, hb₁, b₂, bs, rfl, hb₂, rfl, rfl⟩ := hfollow
    refine ⟨bs, ?_⟩
    rw [encodeChar_eq, toNat_ofNat (by omega)]
    dsimp only
    rw [if_neg (by omega), if_neg (by omega), if_pos (by omega), ofNat_eq (b := b) (by omega),
      ofNat_eq (b := b₁) (by omega), ofNat_eq (b := b₂) (by omega)]
    exact ⟨rfl, rfl⟩
  · obtain ⟨b₁, _, rfl, hb₁, b₂, _, rfl, hb₂, b₃, bs, rfl, hb₃, rfl, rfl⟩ := hfollow
    refine ⟨bs, ?_⟩
    rw [encodeChar_eq, toNat_ofNat (by omega)]
    dsimp only
    rw [if_neg (by omega), if_neg (by omega), if_neg (by omega), ofNat_eq (b := b) (by omega),
      ofNat_eq (b := b₁) (by omega), ofNat_eq (b := b₂) (by omega), ofNat_eq (b := b₃) (by omega)]
    exact ⟨rfl, rfl⟩

/-- The bytes that a character is written with are read as that character, whatever follows. -/
lemma step_encodeChar (c : Char) (rest : Bytes) :
    ∃ b bs, encodeChar c = b :: bs ∧ step b (bs ++ rest) = .char c bs.length := by
  have hc := isValid_toNat c
  have hof : Char.ofNat c.toNat = c := Char.ofNat_toNat c
  rw [encodeChar_eq]
  generalize c.toNat = n at hc hof
  simp only [step_eq_char_iff]
  -- again by the number of bytes, now from the size of the character
  split_ifs with h₁ h₂ h₃
  · refine ⟨_, _, rfl, [], n, ?_, ?_, hof⟩
    · rw [continuations_eq, toNat_byte (by omega)]
      exact if_pos h₁
    · rw [List.length_nil, leadBits_zero, toNat_byte (by omega), follow_nil, List.length_nil]
  · refine ⟨_, _, rfl, [.tail], n, ?_, ?_, hof⟩
    · rw [continuations_eq, toNat_byte (by omega)]
      dsimp only
      rw [if_neg (by omega), if_neg (by omega), if_pos (by omega)]
    · change follow (leadBits _ 1) 0 [.tail] ([_] ++ rest) = .complete n 1
      rw [leadBits_one, toNat_byte (by omega), List.singleton_append, follow_tail (by omega),
        follow_nil]
      congr 1
      omega
  -- the second byte is in its range: above the shorter form, and not a surrogate
  · have hsecond : ∃ r, continuations (UInt8.ofNat (0xe0 + n / 4096)) = some [r, .tail] ∧
        r.low.toNat ≤ 0x80 + n / 64 % 64 ∧ 0x80 + n / 64 % 64 ≤ r.high.toNat := by
      rw [continuations_eq, toNat_byte (by omega)]
      dsimp only
      rw [if_neg (by omega), if_neg (by omega), if_neg (by omega)]
      split_ifs
      · exact ⟨_, rfl, show 0xa0 ≤ _ by omega, show _ ≤ 0xbf by omega⟩
      · exact ⟨_, rfl, show 0x80 ≤ _ by omega, show _ ≤ 0x9f by omega⟩
      · exact ⟨_, rfl, show 0x80 ≤ _ by omega, show _ ≤ 0xbf by omega⟩
      all_goals omega
    obtain ⟨r, hr, hlow, hhigh⟩ := hsecond
    refine ⟨_, _, rfl, _, n, hr, ?_, hof⟩
    change follow (leadBits _ 2) 0 [r, .tail] ([_, _] ++ rest) = .complete n 2
    rw [leadBits_two, toNat_byte (by omega), List.cons_append, follow_byte hlow hhigh,
      List.singleton_append, follow_tail (by omega), follow_nil]
    congr 1
    omega
  -- the second byte is in its range: above the shorter form, and within the characters that exist
  · have hsecond : ∃ r, continuations (UInt8.ofNat (0xf0 + n / 262144)) = some [r, .tail, .tail] ∧
        r.low.toNat ≤ 0x80 + n / 4096 % 64 ∧ 0x80 + n / 4096 % 64 ≤ r.high.toNat := by
      rw [continuations_eq, toNat_byte (by omega)]
      dsimp only
      rw [if_neg (by omega), if_neg (by omega), if_neg (by omega), if_neg (by omega),
        if_neg (by omega), if_neg (by omega)]
      split_ifs
      · exact ⟨_, rfl, show 0x90 ≤ _ by omega, show _ ≤ 0xbf by omega⟩
      · exact ⟨_, rfl, show 0x80 ≤ _ by omega, show _ ≤ 0xbf by omega⟩
      · exact ⟨_, rfl, show 0x80 ≤ _ by omega, show _ ≤ 0x8f by omega⟩
      · omega
    obtain ⟨r, hr, hlow, hhigh⟩ := hsecond
    refine ⟨_, _, rfl, _, n, hr, ?_, hof⟩
    change follow (leadBits _ 3) 0 [r, .tail, .tail] ([_, _, _] ++ rest) = .complete n 3
    rw [leadBits_three, toNat_byte (by omega), List.cons_append, follow_byte hlow hhigh,
      List.cons_append, follow_tail (by omega), List.singleton_append, follow_tail (by omega),
      follow_nil]
    congr 1
    omega

lemma encodeChar_ne_nil (c : Char) : encodeChar c ≠ [] := by
  obtain ⟨b, bs, h, -⟩ := step_encodeChar c []
  simp [h]

/-! ### Whole texts -/

/-- Reading a well-formed sequence is going on behind its first character. -/
lemma cons_eq_encode_iff {b : UInt8} {bs : Bytes} {ds : List Char} :
    b :: bs = encode ds ↔
      ∃ c k es, step b bs = .char c k ∧ bs.drop k = encode es ∧ ds = c :: es := by
  constructor
  · intro h
    cases ds with
    | nil => cases h
    | cons c es =>
      obtain ⟨b', bs', hc, hstep⟩ := step_encodeChar c (encode es)
      rw [encode, List.flatMap_cons, hc, List.cons_append] at h
      obtain ⟨rfl, rfl⟩ := List.cons.inj h
      exact ⟨c, bs'.length, es, hstep, List.drop_left, rfl⟩
  · rintro ⟨c, k, es, hstep, hes, rfl⟩
    obtain ⟨rest, hrest, hk⟩ := encodeChar_of_step hstep
    have hdrop : bs.drop k = rest := by
      rw [← List.drop_succ_cons (a := b), hrest, hk, List.drop_left]
    rw [hrest, ← hdrop, hes]
    rfl

/-- Reading from an offset on, with characters gathered before, is reading the rest. -/
lemma decodeFrom_eq_ok_iff {offset : Nat} {before cs : List Char} {bs : Bytes} :
    decodeFrom offset before bs = .ok cs ↔ ∃ ds, bs = encode ds ∧ cs = before.reverse ++ ds := by
  -- by the recursion of the decoder, at the end, at a character, or where it stops
  fun_induction decodeFrom offset before bs with
  | case1 offset before =>
    constructor
    · intro h
      exact ⟨[], rfl, by simpa [eq_comm] using h⟩
    · rintro ⟨ds, hds, rfl⟩
      cases ds with
      | nil => simp
      | cons d ds => simp [encode, encodeChar_ne_nil] at hds
  | case2 offset before b bs c k hstep ih =>
    simp only [ih, cons_eq_encode_iff, hstep, Step.char.injEq]
    constructor
    · rintro ⟨es, hes, rfl⟩
      exact ⟨c :: es, ⟨c, k, es, ⟨rfl, rfl⟩, hes, rfl⟩, by simp⟩
    · rintro ⟨_, ⟨_, _, es, ⟨rfl, rfl⟩, hes, rfl⟩, rfl⟩
      exact ⟨es, hes, by simp⟩
  | case3 offset before b bs k reason hstep =>
    simp [cons_eq_encode_iff, hstep]

/-- The bytes that spell characters are exactly their encoding. -/
lemma decode_eq_ok_iff {bs : Bytes} {cs : List Char} : decode bs = .ok cs ↔ bs = encode cs := by
  rw [decode, decodeFrom_eq_ok_iff]
  simp

end Clausal.Utf8
