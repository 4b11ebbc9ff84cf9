import Clausal.Json.Basic
import Clausal.Text.Integer
import Mathlib.Logic.Relation
import Mathlib.Tactic.Lemma

/-!
# Values inside values

Induction over the parts of a value, its height, and what holds of every value inside it. Loading a
value from a text is possible only if no object inside repeats a name and no integer inside is too
long.
-/

namespace Clausal.Json

/-! ### Induction over parts -/

lemma sizeOf_le_totalSize {j : Json} {js : List Json} (h : j ∈ js) : sizeOf j ≤ totalSize js := by
  induction js with
  | nil => cases h
  | cons k js ih =>
    simp only [totalSize]
    rcases List.mem_cons.mp h with rfl | h
    · omega
    · have := ih h
      omega

lemma sizeOf_lt_of_mem_parts {j k : Json} (h : k ∈ j.parts) : sizeOf k < sizeOf j :=
  Nat.lt_of_le_of_lt (sizeOf_le_totalSize h) (totalSize_parts_lt j)

lemma mem_parts_of_lookup {ms : List (Text × Json)} {k : Text} {j : Json}
    (h : ms.lookup k = some j) : j ∈ (object ms).parts := by
  obtain ⟨before, after, rfl, -⟩ := List.lookup_eq_some_iff.mp h
  simp [parts]

/-- In an object that repeats no name a lookup finds every member. -/
lemma lookup_eq_some_iff_mem {α : Type} {ms : List (Text × α)} (h : (ms.map Prod.fst).Nodup)
    {k : Text} {a : α} : ms.lookup k = some a ↔ (k, a) ∈ ms := by
  induction ms with
  | nil => simp
  | cons m ms ih =>
    obtain ⟨k', a'⟩ := m
    rw [List.map_cons, List.nodup_cons] at h
    rw [List.lookup_cons, List.mem_cons]
    by_cases hk : k = k'
    · subst hk
      have hnot : (k, a) ∉ ms := fun hmem => h.1 (List.mem_map.mpr ⟨_, hmem, rfl⟩)
      simp [hnot, eq_comm]
    · simp [hk, beq_eq_false_iff_ne.mpr hk, ih h.2]

/-- What holds of a value when it holds of its parts holds of all values. -/
@[elab_as_elim]
lemma inductionOn {P : Json → Prop} (j : Json) (step : ∀ j, (∀ k ∈ j.parts, P k) → P j) : P j :=
  step j fun k _ => inductionOn k step
termination_by sizeOf j
decreasing_by exact sizeOf_lt_of_mem_parts ‹_›

/-! ### Height -/

/-- The structural height of a value: one for a scalar or an empty container, otherwise one more
than that of the highest part. -/
def height : Json → Nat
  | array items => 1 + (items.map height).foldr max 0
  | object members => 1 + (members.map fun m => height m.2).foldr max 0
  | _ => 1
termination_by j => sizeOf j
decreasing_by
  · exact sizeOf_lt_of_mem_parts (j := array items) ‹_›
  · rename_i h
    exact sizeOf_lt_of_mem_parts (j := object members) (List.mem_map_of_mem h)

lemma height_eq (j : Json) : j.height = 1 + (j.parts.map height).foldr max 0 := by
  cases j <;> simp [height, parts, Function.comp_def]

lemma foldr_max_le_iff {ns : List Nat} {a n : Nat} :
    ns.foldr max a ≤ n ↔ a ≤ n ∧ ∀ m ∈ ns, m ≤ n := by
  induction ns with
  | nil => simp
  | cons m ns ih =>
    rw [List.foldr_cons, Nat.max_le, ih, List.forall_mem_cons]
    exact and_left_comm

lemma height_le_succ_iff {j : Json} {n : Nat} :
    j.height ≤ n + 1 ↔ ∀ k ∈ j.parts, k.height ≤ n := by
  rw [height_eq, Nat.add_comm, Nat.succ_le_succ_iff, foldr_max_le_iff]
  simp

lemma height_pos (j : Json) : 0 < j.height := by
  rw [height_eq]
  omega

lemma height_lt_of_mem_parts {j k : Json} (h : k ∈ j.parts) : k.height < j.height := by
  have := height_le_succ_iff (n := j.height - 1) (j := j)
  rw [Nat.sub_add_cancel j.height_pos] at this
  exact Nat.lt_of_le_pred j.height_pos (this.mp (Nat.le_refl _) k h)

/-! ### Values inside -/

/-- The first value is the second or stands inside it, at any depth. -/
def Within (k j : Json) : Prop := Relation.ReflTransGen (fun a b => b ∈ a.parts) j k

/-- What every value inside satisfies is satisfied by the value itself and inside its parts. -/
lemma forall_within_iff {P : Json → Prop} {j : Json} :
    (∀ k, k.Within j → P k) ↔ P j ∧ ∀ p ∈ j.parts, ∀ k, k.Within p → P k := by
  constructor
  · intro h
    exact ⟨h j .refl, fun p hp k hk => h k (.head hp hk)⟩
  · rintro ⟨hj, hparts⟩ k hk
    rcases Relation.ReflTransGen.cases_head hk with rfl | ⟨p, hp, hk⟩
    · exact hj
    · exact hparts p hp k hk

/-- No object inside the value has two members of one name. -/
def Distinct (j : Json) : Prop := ∀ ms, (object ms).Within j → (ms.map Prod.fst).Nodup

/-- No integer inside the value has too many digits. -/
def Short (j : Json) : Prop := ∀ n, (int n).Within j → n.natAbs < integerLimit

lemma distinct_iff {j : Json} :
    j.Distinct ↔ (∀ ms, j = object ms → (ms.map Prod.fst).Nodup) ∧ ∀ p ∈ j.parts, p.Distinct := by
  have := forall_within_iff (j := j) (P := fun k => ∀ ms, k = object ms → (ms.map Prod.fst).Nodup)
  have hall (i : Json) : i.Distinct ↔
      ∀ k, k.Within i → ∀ ms, k = object ms → (ms.map Prod.fst).Nodup :=
    ⟨fun h _ hk ms hms => h ms (hms ▸ hk), fun h ms hms => h _ hms ms rfl⟩
  simp only [hall]
  exact this

lemma short_iff {j : Json} :
    j.Short ↔ (∀ n, j = int n → n.natAbs < integerLimit) ∧ ∀ p ∈ j.parts, p.Short := by
  have := forall_within_iff (j := j) (P := fun k => ∀ n, k = int n → n.natAbs < integerLimit)
  have hall (i : Json) : i.Short ↔ ∀ k, k.Within i → ∀ n, k = int n → n.natAbs < integerLimit :=
    ⟨fun h _ hk n hn => h n (hn ▸ hk), fun h n hn => h _ hn n rfl⟩
  simp only [hall]
  exact this

lemma Short.int {n : Int} (h : n.natAbs < integerLimit) : (Json.int n).Short := by
  rw [short_iff]
  refine ⟨fun m hm => ?_, List.forall_mem_nil _⟩
  cases hm
  exact h

lemma Short.object {ms : List (Text × Json)} (h : ∀ m ∈ ms, m.2.Short) :
    (Json.object ms).Short :=
  short_iff.mpr ⟨by simp, List.forall_mem_map.mpr h⟩

end Clausal.Json
