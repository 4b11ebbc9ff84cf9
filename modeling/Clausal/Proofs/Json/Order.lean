import Clausal.Proofs.Json.Tidy
import Mathlib.Data.List.Nodup

/-!
# Values up to the order of members

Two values are the same up to the order of members if they are equal but for the places of the
members in the objects inside them. Sorting the members by their names is such a change of order.
-/

namespace Clausal.Json

/-- Equal up to the order of the members of objects, at any depth. -/
inductive Same : Json → Json → Prop
  | refl (j : Json) : Same j j
  | array {js ks : List Json} (length : js.length = ks.length)
      (items : ∀ p ∈ js.zip ks, Same p.1 p.2) : Same (.array js) (.array ks)
  | object {ms ns : List (Text × Json)} (names : (ms.map Prod.fst).Perm (ns.map Prod.fst))
      (values : ∀ k a b, ms.lookup k = some a → ns.lookup k = some b → Same a b) :
      Same (.object ms) (.object ns)

lemma Same.symm {j k : Json} (h : Same j k) : Same k j := by
  induction h with
  | refl j => exact .refl j
  | array length _ ih =>
    have hitems := (List.forall₂_iff_zip.mpr ⟨length, fun {_ _} hp => ih _ hp⟩).flip
    exact .array length.symm fun p hp => (List.forall₂_iff_zip.mp hitems).2 hp
  | object names _ ih => exact .object names.symm fun k a b ha hb => ih k b a hb ha

lemma same_of_perm {ms ns : List (Text × Json)} (h : ms.Perm ns) (hms : (ms.map Prod.fst).Nodup) :
    Same (.object ms) (.object ns) := by
  have hnames := h.map Prod.fst
  refine .object hnames fun k a b ha hb => ?_
  rw [lookup_eq_some_iff_mem (hnames.nodup_iff.mp hms), ← h.mem_iff,
    ← lookup_eq_some_iff_mem hms, ha] at hb
  exact Option.some.inj hb ▸ .refl a

lemma height_le_of_parts {j k : Json}
    (h : ∀ a ∈ j.parts, ∃ b ∈ k.parts, a.height ≤ b.height) : j.height ≤ k.height := by
  have hpos := k.height_pos
  rw [← Nat.sub_add_cancel hpos, height_le_succ_iff]
  intro a ha
  obtain ⟨b, hb, hab⟩ := h a ha
  exact hab.trans (Nat.le_pred_of_lt (height_lt_of_mem_parts hb))

/-- Every part of a value has a counterpart in a value that is the same, unless the value is an
object that repeats a name. -/
lemma Same.exists_part {j k a : Json} (h : Same j k)
    (hj : ∀ ms, j = .object ms → (ms.map Prod.fst).Nodup) (ha : a ∈ j.parts) :
    ∃ b ∈ k.parts, Same a b := by
  cases h with
  | refl => exact ⟨a, ha, .refl a⟩
  | array length items =>
    have hitems := List.forall₂_iff_zip.mpr ⟨length, fun {_ _} hp => items _ hp⟩
    exact Outcome.exists_mem_of_forall₂ hitems.flip ha
  -- by names, a member stands in the other list too, and there the value is the same
  | @object ms ns names values =>
    obtain ⟨⟨k, a⟩, hmem, rfl⟩ := List.mem_map.mp ha
    have hlookup := (lookup_eq_some_iff_mem (hj ms rfl)).mpr hmem
    obtain ⟨n, hn, hk⟩ := List.mem_map.mp (names.mem_iff.mp (List.mem_map_of_mem hmem))
    obtain ⟨b, hb⟩ := Option.isSome_iff_exists.mp
      (List.lookup_isSome_iff.mpr ⟨n, hn, beq_iff_eq.mpr hk.symm⟩)
    exact ⟨b, mem_parts_of_lookup hb, values k a b hlookup hb⟩

lemma Same.height_le {j k : Json} (h : Same j k) (hj : j.Distinct) : j.height ≤ k.height := by
  induction j using inductionOn generalizing k with
  | step j ih =>
    obtain ⟨hnames, hparts⟩ := distinct_iff.mp hj
    refine height_le_of_parts fun a ha => ?_
    obtain ⟨b, hb, hab⟩ := h.exists_part hnames ha
    exact ⟨b, hb, ih a ha hab (hparts a ha)⟩

/-- A value that is the same repeats no name either. -/
lemma Same.distinct {j k : Json} (h : Same j k) (hj : j.Distinct) : k.Distinct := by
  induction j using inductionOn generalizing k with
  | step j ih =>
    obtain ⟨hnames, hparts⟩ := distinct_iff.mp hj
    have hnames' : ∀ ms, k = .object ms → (ms.map Prod.fst).Nodup := by
      rintro ms rfl
      cases h with
      | refl => exact hnames ms rfl
      | object names values => exact names.nodup_iff.mp (hnames _ rfl)
    refine distinct_iff.mpr ⟨hnames', fun b hb => ?_⟩
    obtain ⟨a, ha, hba⟩ := h.symm.exists_part hnames' hb
    exact ih a ha hba.symm (hparts a ha)

lemma Same.height_eq {j k : Json} (h : Same j k) (hj : j.Distinct) : j.height = k.height :=
  Nat.le_antisymm (h.height_le hj) (h.symm.height_le (h.distinct hj))

/-- The members of an object, each sorted inside, in the order of their names. -/
lemma exists_sortMembers_object (ms : List (Text × Json)) : ∃ ns, (object ms).sortMembers =
    .object ns ∧ ns.Perm (ms.map fun m => (m.1, m.2.sortMembers)) := by
  rw [sortMembers]
  exact ⟨_, rfl, List.mergeSort_perm _ _⟩

lemma map_fst_perm {ms ns : List (Text × Json)}
    (h : ns.Perm (ms.map fun m => (m.1, m.2.sortMembers))) :
    (ms.map Prod.fst).Perm (ns.map Prod.fst) := by
  have := (h.map Prod.fst).symm
  rwa [List.map_map] at this

/-- Sorting members keeps the value up to their order. -/
lemma same_sortMembers {j : Json} (h : j.Distinct) : Same j j.sortMembers := by
  induction j using inductionOn with
  | step j ih =>
    obtain ⟨hnames, hparts⟩ := distinct_iff.mp h
    cases j with
    | null | bool | int | float | string =>
      rw [sortMembers]
      · exact .refl _
      all_goals exact fun _ h => by cases h
    | array js =>
      rw [sortMembers]
      have hzip : List.Forall₂ Same js (js.map sortMembers) :=
        List.forall₂_map_right_iff.mpr
          (List.forall₂_same.mpr fun j hj => ih j hj (hparts j hj))
      obtain ⟨hlength, hitems⟩ := List.forall₂_iff_zip.mp hzip
      exact .array hlength fun p hp => hitems hp
    | object ms =>
      obtain ⟨ns, hns, hperm⟩ := exists_sortMembers_object ms
      rw [hns]
      have hfst := map_fst_perm hperm
      -- a name has one value before and after, since names are distinct
      refine .object hfst fun k a b ha hb => ?_
      have hmem := (lookup_eq_some_iff_mem (hnames ms rfl)).mp ha
      have hmem' := (lookup_eq_some_iff_mem (hfst.nodup_iff.mp (hnames ms rfl))).mp hb
      obtain ⟨⟨k', c⟩, hc, heq⟩ := List.mem_map.mp (hperm.mem_iff.mp hmem')
      obtain ⟨rfl, rfl⟩ := Prod.mk.inj heq
      have hac : some a = some c := ha.symm.trans ((lookup_eq_some_iff_mem (hnames ms rfl)).mpr hc)
      obtain rfl := Option.some.inj hac
      have hpart : a ∈ (object ms).parts := List.mem_map_of_mem hc
      exact ih a hpart (hparts a hpart)

/-- Sorting members keeps values tidy. -/
lemma Tidy.sortMembers {n : Nat} {j : Json} (h : Tidy n j) : Tidy n j.sortMembers := by
  induction h with
  | null | bool | int | string =>
    rw [Json.sortMembers]
    · constructor <;> assumption
    all_goals exact fun _ h => by cases h
  | array _ ih =>
    rw [Json.sortMembers]
    exact .array (List.forall_mem_map.mpr ih)
  | @object n ms names distinct _ ih =>
    obtain ⟨ns, hns, hperm⟩ := exists_sortMembers_object ms
    rw [hns]
    refine .object (fun m hm => ?_) ((map_fst_perm hperm).nodup_iff.mp distinct) fun m hm => ?_
    · obtain ⟨m', hm', rfl⟩ := List.mem_map.mp (hperm.mem_iff.mp hm)
      exact names m' hm'
    · obtain ⟨m', hm', rfl⟩ := List.mem_map.mp (hperm.mem_iff.mp hm)
      exact ih m' hm'

end Clausal.Json
