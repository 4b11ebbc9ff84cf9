import Clausal.Proofs.Json.Value
import Mathlib.Order.WellFounded

/-!
# Walks over values

The height of a value is measured by a walk that keeps a list of values still to be visited, each
with its level, and the greatest level found so far. Whichever pending value is visited next, and
wherever its parts are put, the walk comes to an end, and it has then found the height.
-/

namespace Clausal

lemma Json.totalSize_perm {js ks : List Json} (h : js.Perm ks) :
    totalSize js = totalSize ks := by
  induction h with
  | nil => rfl
  | cons j _ ih => rw [totalSize, totalSize, ih]
  | swap j k js =>
    simp only [totalSize]
    omega
  | trans _ _ ih ih' => rw [ih, ih']

/-- The greatest level found, and the values still to be visited, each with its level. -/
structure Walk where
  found : Nat
  pending : List (Json × Nat)

namespace Walk

/-- Nothing is found yet and the value itself is to be visited. -/
def start (j : Json) : Walk := ⟨0, [(j, 1)]⟩

/-- Some pending value is visited, and its parts are pending from then on, one level deeper. -/
inductive Step : Walk → Walk → Prop
  | visit {found level : Nat} {j : Json} {pending rest next : List (Json × Nat)}
      (taken : pending.Perm ((j, level) :: rest))
      (put : next.Perm (j.parts.map (fun part => (part, level + 1)) ++ rest)) :
      Step ⟨found, pending⟩ ⟨max found level, next⟩

/-- One walk comes from another by any number of visits. -/
abbrev Steps : Walk → Walk → Prop := Relation.ReflTransGen Step

variable {w w' : Walk} {j : Json} {n : Nat}

lemma exists_step (h : w.pending ≠ []) : ∃ w', w.Step w' := by
  obtain ⟨found, pending⟩ := w
  obtain ⟨⟨j, level⟩, rest, rfl⟩ := List.exists_cons_of_ne_nil h
  exact ⟨_, .visit (.refl _) (.refl _)⟩

/-! ### What a walk will find -/

/-- The greatest level of all values that are found or still to be found. -/
def reach (w : Walk) : Nat := (w.pending.map fun p => p.2 + p.1.height - 1).foldr max w.found

lemma reach_le_iff :
    w.reach ≤ n ↔ w.found ≤ n ∧ ∀ p ∈ w.pending, p.2 + p.1.height - 1 ≤ n := by
  rw [reach, Json.foldr_max_le_iff, List.forall_mem_map]

lemma reach_start (j : Json) : (start j).reach = j.height := by
  have := j.height_pos
  simp only [reach, start, List.map_cons, List.map_nil, List.foldr_cons, List.foldr_nil]
  omega

lemma reach_of_pending_eq_nil (h : w.pending = []) : w.reach = w.found := by
  rw [reach, h]
  rfl

/-- A value stays within a bound if its own level does and its parts, one level deeper, do. -/
lemma level_add_height_le_iff {level : Nat} :
    level + j.height - 1 ≤ n ↔ level ≤ n ∧ ∀ k ∈ j.parts, level + 1 + k.height - 1 ≤ n := by
  have hpos := j.height_pos
  constructor
  · intro h
    -- heights count from one, so the level of the parts is one more
    refine ⟨by omega, fun k hk => ?_⟩
    have := Json.height_lt_of_mem_parts hk
    omega
  · rintro ⟨hlevel, hparts⟩
    have hheight : j.height ≤ n - level + 1 := by
      refine Json.height_le_succ_iff.mpr fun k hk => ?_
      have := hparts k hk
      omega
    omega

/-- A visit changes nothing of what the walk will find. -/
lemma Step.reach_eq (h : w.Step w') : w'.reach = w.reach := by
  have hle (n : Nat) : w'.reach ≤ n ↔ w.reach ≤ n := by
    obtain ⟨taken, put⟩ := h
    simp only [reach_le_iff, taken.mem_iff, put.mem_iff, List.forall_mem_cons,
      List.forall_mem_append, List.forall_mem_map, Nat.max_le]
    rw [level_add_height_le_iff, and_assoc, and_assoc]
  exact Nat.le_antisymm ((hle _).mpr (Nat.le_refl _)) ((hle _).mp (Nat.le_refl _))

lemma Steps.reach_eq (h : w.Steps w') : w'.reach = w.reach := by
  induction h with
  | refl => rfl
  | tail _ hstep ih => rw [hstep.reach_eq, ih]

/-! ### The end of a walk -/

/-- The parts of a value are less than the value, so there is less still to be visited. -/
lemma Step.totalSize_lt (h : w.Step w') :
    Json.totalSize (w'.pending.map Prod.fst) < Json.totalSize (w.pending.map Prod.fst) := by
  obtain @⟨found, level, j, pending, rest, next, taken, put⟩ := h
  have hparts := Json.totalSize_parts_lt j
  have hmap : Prod.fst ∘ (fun part : Json => (part, level + 1)) = id := rfl
  rw [Json.totalSize_perm (put.map _), Json.totalSize_perm (taken.map _), List.map_append,
    List.map_map, hmap, List.map_id, Json.totalSize_append, List.map_cons, Json.totalSize]
  exact Nat.add_lt_add_right hparts _

/-- There is no walk without an end. -/
lemma wellFounded_step : WellFounded fun w' w : Walk => w.Step w' :=
  Subrelation.wf Step.totalSize_lt
    (measure fun w : Walk => Json.totalSize (w.pending.map Prod.fst)).wf

/-- Where nothing is left to be visited, the height is found. -/
lemma Steps.found_eq (h : (start j).Steps w) (hend : w.pending = []) : w.found = j.height := by
  rw [← reach_of_pending_eq_nil hend, h.reach_eq, reach_start]

/-- Visiting the first of the pending values each time is one way to walk. -/
lemma steps_deepest (found : Nat) (pending : List (Json × Nat)) :
    Steps ⟨found, pending⟩ ⟨Json.deepest found pending, []⟩ := by
  fun_induction Json.deepest found pending with
  | case1 found => exact .refl
  | case2 found j level rest ih => exact .head (.visit (.refl _) (.refl _)) ih

end Walk

lemma Json.steps_depth (j : Json) : (Walk.start j).Steps ⟨j.depth, []⟩ := Walk.steps_deepest 0 _

/-- The depth of a value is its height. -/
lemma Json.depth_eq (j : Json) : j.depth = j.height := j.steps_depth.found_eq rfl

end Clausal
