import Clausal.Proofs.Outcome
import Clausal.Wire.Compact
import Mathlib.Algebra.Group.Nat.Defs

/-!
# The compact form of numbers

Numbers below `2 ^ 536` have a compact form and no others do. The form is determined by its first
byte: what has to follow it for a number is `Compact.Completes`, which says in one place how long
each form is, how it holds the number and which numbers are too small for it.
-/

namespace Clausal.Compact

/-! ### Little-endian bytes -/

@[simp] lemma length_littleEndian (n k : Nat) : (littleEndian n k).length = k := by
  induction k generalizing n with
  | zero => rfl
  | succ k ih => simp [littleEndian, ih]

lemma ofLittleEndian_lt (bs : Bytes) : ofLittleEndian bs < 256 ^ bs.length := by
  induction bs with
  | nil => simp [ofLittleEndian]
  | cons b bs ih =>
    have hb := b.toNat_lt
    rw [ofLittleEndian, List.length_cons, Nat.pow_succ]
    omega

lemma ofLittleEndian_littleEndian {n k : Nat} (h : n < 256 ^ k) :
    ofLittleEndian (littleEndian n k) = n := by
  induction k generalizing n with
  | zero => simp only [Nat.pow_zero, Nat.lt_one_iff] at h; simp [littleEndian, ofLittleEndian, h]
  | succ k ih =>
    have hdiv : n / 256 < 256 ^ k := by
      rw [Nat.pow_succ] at h
      exact (Nat.div_lt_iff_lt_mul (by decide)).mpr h
    rw [littleEndian, ofLittleEndian, ih hdiv, UInt8.toNat_ofNat']
    exact Nat.mod_add_div n 256

lemma littleEndian_ofLittleEndian (bs : Bytes) :
    littleEndian (ofLittleEndian bs) bs.length = bs := by
  induction bs with
  | nil => rfl
  | cons b bs ih =>
    have hb := b.toNat_lt
    have hdiv : (b.toNat + 256 * ofLittleEndian bs) / 256 = ofLittleEndian bs := by omega
    rw [ofLittleEndian, List.length_cons, littleEndian, hdiv, ih]
    congr 1
    rw [← UInt8.toNat_inj, UInt8.toNat_ofNat']
    omega

/-- The highest byte is not zero exactly when no fewer bytes hold the number. -/
lemma getLast?_ne_zero_iff {bs : Bytes} {k : Nat} (h : bs.length = k + 1) :
    bs.getLast? ≠ some 0 ↔ 256 ^ k ≤ ofLittleEndian bs := by
  induction bs generalizing k with
  | nil => simp at h
  | cons b bs ih =>
    cases bs with
    | nil =>
      obtain rfl : k = 0 := by simpa using h.symm
      have hb : b = 0 ↔ b.toNat = 0 := by rw [← UInt8.toNat_inj]; rfl
      simp only [List.getLast?_singleton, ne_eq, Option.some.injEq, hb, ofLittleEndian,
        Nat.pow_zero]
      omega
    | cons c cs =>
      obtain ⟨k, rfl⟩ : ∃ j, k = j + 1 := ⟨cs.length, by simpa using h.symm⟩
      have hb := b.toNat_lt
      rw [List.getLast?_cons_cons, ih (by simpa using h), ofLittleEndian.eq_2 b, Nat.pow_succ]
      omega

lemma byteLength_le_iff {n k : Nat} : byteLength n ≤ k ↔ n < 256 ^ k := by
  induction k generalizing n with
  | zero =>
    rw [byteLength]
    split <;> simp_all
  | succ k ih =>
    rw [byteLength]
    split
    · next hn => exact iff_of_true (Nat.zero_le _) (hn ▸ Nat.pow_pos (by decide))
    · rw [Nat.add_le_add_iff_right, ih, Nat.pow_succ]
      exact Nat.div_lt_iff_lt_mul (by decide)

lemma byteLength_ofLittleEndian {bs : Bytes} (h : bs.getLast? ≠ some 0) :
    byteLength (ofLittleEndian bs) = bs.length := by
  cases hk : bs.length with
  | zero =>
    obtain rfl := List.length_eq_zero_iff.mp hk
    rw [ofLittleEndian, byteLength, if_pos rfl]
  | succ k =>
    -- as many bytes hold the number, and one less does not, since the last is not zero
    have hle : byteLength (ofLittleEndian bs) ≤ k + 1 :=
      byteLength_le_iff.mpr (hk ▸ ofLittleEndian_lt bs)
    have hlt : ¬ byteLength (ofLittleEndian bs) ≤ k := by
      rw [byteLength_le_iff, Nat.not_lt]
      exact (getLast?_ne_zero_iff hk).mp h
    omega

/-! ### The form of a number -/

/-- Numbers below this, `2 ^ 536`, have a compact form. -/
def limit : Nat := 2 ^ (8 * maxBytes)

lemma lt_limit_iff {n : Nat} : n < limit ↔ byteLength n ≤ maxBytes := by
  rw [byteLength_le_iff, limit, Nat.pow_mul]

lemma exists_encode_iff {n : Nat} : (∃ bs, encode n = .ok bs) ↔ n < limit := by
  have hsmall (h : n < quadLimit) : byteLength n ≤ maxBytes := by
    have : byteLength n ≤ 4 := byteLength_le_iff.mpr (by simp only [quadLimit] at h; omega)
    simp only [maxBytes]
    omega
  rw [lt_limit_iff]
  unfold encode
  split_ifs with h₁ h₂ h₃ h₄
  · simp [hsmall (by simp only [singleLimit, quadLimit] at *; omega)]
  · simp [hsmall (by simp only [doubleLimit, quadLimit] at *; omega)]
  · simp [hsmall h₃]
  · simp [h₄]
  · simp [h₄]

/-- The bytes `more` complete the first byte to the compact form of `n`. -/
def Completes (first : UInt8) (n : Nat) (more : Bytes) : Prop :=
  match first.toNat % 4 with
  | 0 => n = first.toNat / 4 ∧ more = []
  | 1 => more.length = 1 ∧ n = ofLittleEndian (first :: more) / 4 ∧ singleLimit ≤ n
  | 2 => more.length = 3 ∧ n = ofLittleEndian (first :: more) / 4 ∧ doubleLimit ≤ n
  | _ => more.length = first.toNat / 4 + 4 ∧ more.getLast? ≠ some 0 ∧
      n = ofLittleEndian more ∧ quadLimit ≤ n

/-- Numbers from `2 ^ 30` on are counted, and the smaller ones have at most three more bytes. -/
lemma Completes.short_or_counted {first : UInt8} {n : Nat} {more : Bytes}
    (h : Completes first n more) :
    (more.length < 4 ∧ n < quadLimit) ∨
      (first.toNat % 4 = 3 ∧ more.length = first.toNat / 4 + 4 ∧ more.getLast? ≠ some 0 ∧
        n = ofLittleEndian more ∧ quadLimit ≤ n) := by
  have hfirst := first.toNat_lt
  have hlt := ofLittleEndian_lt (first :: more)
  simp only [quadLimit] at *
  unfold Completes at h
  -- by the mode in the two lowest bits: one byte, two, four, or as many as the first one counts
  split at h
  · obtain ⟨rfl, rfl⟩ := h
    exact .inl ⟨by simp, by omega⟩
  · obtain ⟨hlen, hn, -⟩ := h
    rw [List.length_cons, hlen] at hlt
    exact .inl ⟨by omega, by omega⟩
  · obtain ⟨hlen, hn, -⟩ := h
    rw [List.length_cons, hlen] at hlt
    exact .inl ⟨by omega, by omega⟩
  · next h₀ h₁ h₂ =>
    change _ ≠ _ at h₀ h₁ h₂
    exact .inr ⟨by omega, h⟩

/-- Bytes whose lowest two bits select a form are the number above these bits, written back. -/
lemma littleEndian_tagged {first : UInt8} {mode : Nat} (h : first.toNat % 4 = mode) (more : Bytes) :
    littleEndian (ofLittleEndian (first :: more) / 4 * 4 + mode) (more.length + 1) =
      first :: more := by
  have hmod : ofLittleEndian (first :: more) / 4 * 4 + mode = ofLittleEndian (first :: more) := by
    rw [ofLittleEndian]
    omega
  rw [hmod]
  exact littleEndian_ofLittleEndian (first :: more)

/-- The number above the bits that select a form is recovered, if the bytes hold it. -/
lemma ofLittleEndian_tagged {n mode k : Nat} (hmode : mode < 4) (h : n * 4 + mode < 256 ^ k) :
    ofLittleEndian (littleEndian (n * 4 + mode) k) / 4 = n := by
  rw [ofLittleEndian_littleEndian h]
  omega

lemma completes_of_encode {n : Nat} {bs : Bytes} (h : encode n = .ok bs) :
    ∃ first more, bs = first :: more ∧ Completes first n more := by
  have hmode (m : Nat) : (UInt8.ofNat m).toNat % 4 = m % 4 := by
    rw [UInt8.toNat_ofNat']
    omega
  simp only [encode] at h
  split_ifs at h with h₁ h₂ h₃ h₄
  · cases h
    refine ⟨_, [], rfl, ?_⟩
    rw [Completes, hmode, Nat.mul_mod_left]
    refine ⟨?_, rfl⟩
    rw [UInt8.toNat_ofNat']
    simp only [singleLimit] at h₁
    omega
  · cases h
    refine ⟨_, _, rfl, ?_⟩
    rw [Completes, hmode, show (n * 4 + 1) % 4 = 1 by omega]
    refine ⟨by simp, ?_, by omega⟩
    have hlt : n * 4 + 1 < 256 ^ 2 := by
      simp only [doubleLimit] at h₂
      omega
    exact (ofLittleEndian_tagged (by decide) hlt).symm
  · cases h
    refine ⟨_, _, rfl, ?_⟩
    rw [Completes, hmode, show (n * 4 + 2) % 4 = 2 by omega]
    refine ⟨by simp, ?_, by omega⟩
    have hlt : n * 4 + 2 < 256 ^ 4 := by
      simp only [quadLimit] at h₃
      omega
    exact (ofLittleEndian_tagged (by decide) hlt).symm
  · cases h
    refine ⟨_, _, rfl, ?_⟩
    have hlen : ¬ byteLength n ≤ 3 := by
      rw [byteLength_le_iff]
      simp only [quadLimit] at h₃
      omega
    rw [Completes, hmode, show ((byteLength n - 4) * 4 + 3) % 4 = 3 by omega]
    simp only [maxBytes] at h₄
    refine ⟨?_, ?_, ?_, by omega⟩
    · rw [length_littleEndian, UInt8.toNat_ofNat']
      omega
    · rw [getLast?_ne_zero_iff (k := byteLength n - 1) (by simp; omega),
        ofLittleEndian_littleEndian (byteLength_le_iff.mp (Nat.le_refl _)), ← Nat.not_lt,
        ← byteLength_le_iff]
      omega
    · exact (ofLittleEndian_littleEndian (byteLength_le_iff.mp (Nat.le_refl _))).symm
  · simp at h

lemma encode_of_completes {first : UInt8} {n : Nat} {more : Bytes} (h : Completes first n more) :
    encode n = .ok (first :: more) := by
  have hfirst := first.toNat_lt
  have hlt := ofLittleEndian_lt (first :: more)
  unfold Completes at h
  -- the same four modes; in each, the bounds exclude the shorter forms
  split at h
  · next hmode =>
    obtain ⟨rfl, rfl⟩ := h
    have hn : first.toNat / 4 < singleLimit := by simp only [singleLimit]; omega
    rw [encode, if_pos hn]
    exact congrArg Except.ok (littleEndian_tagged hmode [])
  · next hmode =>
    obtain ⟨hlen, hn, hle⟩ := h
    have hub : n < doubleLimit := by
      rw [List.length_cons, hlen] at hlt
      simp only [doubleLimit]
      omega
    have hbytes := littleEndian_tagged hmode more
    rw [← hn, hlen] at hbytes
    rw [encode, if_neg (by omega), if_pos hub, hbytes]
  · next hmode =>
    obtain ⟨hlen, hn, hle⟩ := h
    have hub : n < quadLimit := by
      rw [List.length_cons, hlen] at hlt
      simp only [quadLimit]
      omega
    have hbytes := littleEndian_tagged hmode more
    rw [← hn, hlen] at hbytes
    rw [encode, if_neg (by simp only [singleLimit, doubleLimit] at *; omega), if_neg (by omega),
      if_pos hub, hbytes]
  · next h₀ h₁ h₂ =>
    obtain ⟨hlen, hlast, rfl, hle⟩ := h
    have hcount := byteLength_ofLittleEndian hlast
    have hmax : byteLength (ofLittleEndian more) ≤ maxBytes := by
      simp only [hcount, maxBytes]
      omega
    have hbyte : (more.length - 4) * 4 + 3 = first.toNat := by
      change _ ≠ _ at h₀ h₁ h₂
      omega
    simp only [quadLimit] at hle
    rw [encode, if_neg (by simp only [singleLimit]; omega),
      if_neg (by simp only [doubleLimit]; omega), if_neg (by simp only [quadLimit]; omega),
      if_pos hmax, hcount, hbyte, UInt8.ofNat_toNat, littleEndian_ofLittleEndian]

/-- A number has the compact form that some bytes complete, and no other. -/
lemma encode_eq_ok_iff {n : Nat} {bs : Bytes} :
    encode n = .ok bs ↔ ∃ first more, bs = first :: more ∧ Completes first n more := by
  constructor
  · exact completes_of_encode
  · rintro ⟨first, more, rfl, h⟩
    exact encode_of_completes h

end Clausal.Compact
