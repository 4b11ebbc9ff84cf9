import Clausal.Symbol
import Mathlib.Data.List.Basic

/-!
# Numbers of symbols

A vocabulary that lists each of its symbols once, and no more symbols than there are bytes, gives
every symbol a byte of its own.
-/

namespace Clausal

/-- A byte is the place of an item in a short list without repetitions exactly when the item stands
there. -/
lemma getElem?_toNat_eq_some_iff {α : Type} [DecidableEq α] {as : List α} (hnodup : as.Nodup)
    (hlen : as.length ≤ 256) {b : UInt8} {a : α} :
    as[b.toNat]? = some a ↔ a ∈ as ∧ b = UInt8.ofNat (as.idxOf a) := by
  constructor
  · intro h
    obtain ⟨hlt, rfl⟩ := List.getElem?_eq_some_iff.mp h
    refine ⟨List.getElem_mem hlt, ?_⟩
    rw [hnodup.idxOf_getElem, UInt8.ofNat_toNat]
  · rintro ⟨hmem, rfl⟩
    have hlt := List.idxOf_lt_length_iff.mpr hmem
    rw [UInt8.toNat_ofNat_of_lt' (Nat.lt_of_lt_of_le hlt hlen)]
    exact List.getElem?_idxOf hmem

namespace Vocabulary

/-- A vocabulary that lists every symbol once, and few enough of them for a byte. -/
class Lawful (α : Type) [Vocabulary α] : Prop where
  mem_all (s : α) : s ∈ (all : List α)
  nodup_all : (all : List α).Nodup
  length_all_le : (all : List α).length ≤ 256

variable {α : Type} [Vocabulary α] [DecidableEq α] [Lawful α]

lemma ofIndex?_toNat_eq_some_iff {b : UInt8} {s : α} :
    (ofIndex? b.toNat : Option α) = some s ↔ b = byte s := by
  rw [ofIndex?, getElem?_toNat_eq_some_iff Lawful.nodup_all Lawful.length_all_le]
  exact and_iff_right (Lawful.mem_all s)

instance : Lawful NodeTag where
  mem_all s := by cases s <;> decide
  nodup_all := by decide
  length_all_le := by decide

instance : Lawful VarKind where
  mem_all s := by cases s <;> decide
  nodup_all := by decide
  length_all_le := by decide

instance : Lawful Connective where
  mem_all s := by cases s <;> decide
  nodup_all := by decide
  length_all_le := by decide

end Vocabulary

end Clausal
