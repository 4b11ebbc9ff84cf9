import Clausal.Proofs.Json.Order
import Mathlib.Data.List.Lex
import Mathlib.Data.List.Sort

/-!
# Sorted members

Names are put in a total order, so members with distinct names can be sorted in one way only. Hence
two values are the same up to the order of members exactly if they are equal once their members are
sorted.
-/

namespace Clausal

lemma CodePoint.toNat_injective : Function.Injective toNat := by
  intro c d h
  -- the code points of characters leave out the range of the surrogates
  cases c with
  | scalar c =>
    have hc : c.toNat < 0xd800 ∨ 0xdfff < c.toNat ∧ c.toNat < 0x110000 := c.valid
    cases d with
    | scalar d => rw [Char.toNat_inj.mp h]
    | surrogate o =>
      have : c.toNat = 0xd800 + o.val := h
      omega
  | surrogate o =>
    cases d with
    | scalar d =>
      have hd : d.toNat < 0xd800 ∨ 0xdfff < d.toNat ∧ d.toNat < 0x110000 := d.valid
      have : 0xd800 + o.val = d.toNat := h
      omega
    | surrogate p =>
      have : 0xd800 + o.val = 0xd800 + p.val := h
      rw [Fin.ext (Nat.add_left_cancel this)]

namespace Json

/-! ### Members in order -/

lemma not_lt_iff {s t : Text} :
    (!Text.lt t s) = true ↔ s.map CodePoint.toNat ≤ t.map CodePoint.toNat := by
  rw [Text.lt, Bool.not_eq_true', decide_eq_false_iff_not]
  exact not_lt

/-- Members with distinct names are sorted in one way only. -/
lemma mergeSort_eq_of_perm {ms ns : List (Text × Json)} (h : ms.Perm ns)
    (hms : (ms.map Prod.fst).Nodup) :
    (ms.mergeSort fun m n => !Text.lt n.1 m.1) = ns.mergeSort fun m n => !Text.lt n.1 m.1 := by
  have htrans : ∀ a b c : Text × Json, (!Text.lt b.1 a.1) = true → (!Text.lt c.1 b.1) = true →
      (!Text.lt c.1 a.1) = true := by
    intro a b c hab hbc
    exact not_lt_iff.mpr ((not_lt_iff.mp hab).trans (not_lt_iff.mp hbc))
  have htotal : ∀ a b : Text × Json, ((!Text.lt b.1 a.1) || !Text.lt a.1 b.1) = true := by
    intro a b
    rw [Bool.or_eq_true, not_lt_iff, not_lt_iff]
    exact le_total _ _
  -- both sides are sorted and permutations of one list, and equal names are names of one member
  refine List.Perm.eq_of_pairwise ?_ (List.pairwise_mergeSort htrans htotal ms)
    (List.pairwise_mergeSort htrans htotal ns)
    ((List.mergeSort_perm _ _).trans (h.trans (List.mergeSort_perm _ _).symm))
  intro m n hm hn hle hge
  have hnames : m.1.map CodePoint.toNat = n.1.map CodePoint.toNat :=
    (not_lt_iff.mp hle).antisymm (not_lt_iff.mp hge)
  have hm : m ∈ ms := (List.mergeSort_perm _ _).mem_iff.mp hm
  have hn : n ∈ ms := h.mem_iff.mpr ((List.mergeSort_perm _ _).mem_iff.mp hn)
  exact List.inj_on_of_nodup_map hms hm hn
    (List.map_injective_iff.mpr CodePoint.toNat_injective hnames)

/-! ### The same values -/

lemma exists_lookup_of_perm {ms ns : List (Text × Json)}
    (h : (ms.map Prod.fst).Perm (ns.map Prod.fst)) {k : Text} {a : Json}
    (ha : ms.lookup k = some a) : ∃ b, ns.lookup k = some b := by
  obtain ⟨before, after, rfl, -⟩ := List.lookup_eq_some_iff.mp ha
  obtain ⟨n, hn, hk⟩ := List.mem_map.mp (h.mem_iff.mp (by simp : k ∈ _))
  exact Option.isSome_iff_exists.mp
    (List.lookup_isSome_iff.mpr ⟨n, hn, beq_iff_eq.mpr hk.symm⟩)

lemma forall₂_trans {α : Type} {R S T : α → α → Prop} {as bs cs : List α}
    (h : List.Forall₂ R as bs) (h' : List.Forall₂ S bs cs)
    (hT : ∀ a ∈ as, ∀ b c, R a b → S b c → T a c) : List.Forall₂ T as cs := by
  induction h generalizing cs with
  | nil =>
    cases h'
    exact .nil
  | cons hab _ ih =>
    cases h' with
    | cons hbc h' =>
      obtain ⟨ha, has⟩ := List.forall_mem_cons.mp hT
      exact .cons (ha _ _ hab hbc) (ih h' has)

lemma Same.trans {j k l : Json} (h : Same j k) (h' : Same k l) (hj : j.Distinct) : Same j l := by
  -- on the first value, for any two others; parts are the same through the parts between them
  induction j using inductionOn generalizing k l with
  | step j ih =>
    have hparts := (distinct_iff.mp hj).2
    cases h with
    | refl => exact h'
    | array length items =>
      cases h' with
      | refl => exact .array length items
      | array length' items' =>
        have hjk := List.forall₂_iff_zip.mpr ⟨length, fun {_ _} hp => items _ hp⟩
        have hkl := List.forall₂_iff_zip.mpr ⟨length', fun {_ _} hp => items' _ hp⟩
        have hjl := forall₂_trans hjk hkl fun a ha b c hab hbc => ih a ha hab hbc (hparts a ha)
        exact .array (length.trans length') fun p hp => (List.forall₂_iff_zip.mp hjl).2 hp
    | object names values =>
      cases h' with
      | refl => exact .object names values
      | object names' values' =>
        refine .object (names.trans names') fun k a c ha hc => ?_
        obtain ⟨b, hb⟩ := exists_lookup_of_perm names ha
        have hpart := mem_parts_of_lookup ha
        exact ih a hpart (values k a b ha hb) (values' k b c hb hc) (hparts a hpart)

lemma sortMembers_eq_of_same {j k : Json} (h : Same j k) (hj : j.Distinct) :
    j.sortMembers = k.sortMembers := by
  induction j using inductionOn generalizing k with
  | step j ih =>
    obtain ⟨hnames, hparts⟩ := distinct_iff.mp hj
    cases h with
    | refl => rfl
    | @array js ks length items =>
      rw [sortMembers, sortMembers]
      congr 1
      rw [← List.forall₂_eq_eq_eq, List.forall₂_map_left_iff, List.forall₂_map_right_iff]
      refine List.forall₂_iff_zip.mpr ⟨length, fun {a b} hp => ?_⟩
      have ha : a ∈ js := (List.of_mem_zip hp).1
      exact ih a ha (items _ hp) (hparts a ha)
    | @object ms ns names values =>
      rw [sortMembers, sortMembers]
      have hms := hnames ms rfl
      have hns := names.nodup_iff.mp hms
      have hkeys (ls : List (Text × Json)) :
          (ls.map fun m => (m.1, m.2.sortMembers)).map Prod.fst = ls.map Prod.fst := by
        rw [List.map_map]
        rfl
      have hms' := (hkeys ms).symm ▸ hms
      have hns' := (hkeys ns).symm ▸ hns
      refine congrArg _ (mergeSort_eq_of_perm ?_ hms')
      -- without repeated names it is enough to compare which members there are
      refine (List.perm_ext_iff_of_nodup hms'.of_map hns'.of_map).mpr ?_
      have hmem (ls : List (Text × Json)) (hls : (ls.map Prod.fst).Nodup) (k : Text) (c : Json) :
          (k, c) ∈ ls.map (fun m => (m.1, m.2.sortMembers)) ↔
            ∃ a, ls.lookup k = some a ∧ a.sortMembers = c := by
        simp [lookup_eq_some_iff_mem hls]
      rintro ⟨k, c⟩
      rw [hmem ms hms, hmem ns hns]
      constructor
      · rintro ⟨a, ha, rfl⟩
        obtain ⟨b, hb⟩ := exists_lookup_of_perm names ha
        have hpart := mem_parts_of_lookup ha
        exact ⟨b, hb, (ih a hpart (values k a b ha hb) (hparts a hpart)).symm⟩
      · rintro ⟨b, hb, rfl⟩
        obtain ⟨a, ha⟩ := exists_lookup_of_perm names.symm hb
        have hpart := mem_parts_of_lookup ha
        exact ⟨a, ha, ih a hpart (values k a b ha hb) (hparts a hpart)⟩

/-- Sorted members tell whether two values are the same. -/
lemma same_iff_sortMembers_eq {j k : Json} (hj : j.Distinct) (hk : k.Distinct) :
    Same j k ↔ j.sortMembers = k.sortMembers := by
  constructor
  · exact fun h => sortMembers_eq_of_same h hj
  · intro h
    have hsorted : Same j k.sortMembers := h ▸ same_sortMembers hj
    exact hsorted.trans (same_sortMembers hk).symm hj

/-! ### Fractions -/

/-- Tests of scalars do not see the order of members. -/
lemma any_sortMembers {test : Json → Bool} (j : Json) : j.sortMembers.any test = j.any test := by
  induction j using inductionOn with
  | step j ih =>
    cases j with
    | null | bool | int | float | string =>
      rw [sortMembers]
      all_goals exact fun _ h => by cases h
    | array js =>
      rw [sortMembers, any, any, List.map_map]
      exact congrArg (List.any · id) (List.map_congr_left fun j hj => ih j hj)
    | object ms =>
      obtain ⟨ns, hns, hperm⟩ := exists_sortMembers_object ms
      rw [hns, any, any, (hperm.map _).any_eq, List.map_map]
      exact congrArg (List.any · id)
        (List.map_congr_left fun m hm => ih m.2 (List.mem_map_of_mem hm))

/-- A value holds a fraction, or a part of it does. -/
lemma exists_float_within_iff {j : Json} : (∃ bits, (float bits).Within j) ↔
    (∃ bits, j = float bits) ∨ ∃ p ∈ j.parts, ∃ bits, (float bits).Within p := by
  have hwithin (bits : UInt64) : (float bits).Within j ↔
      j = float bits ∨ ∃ p ∈ j.parts, (float bits).Within p := Relation.ReflTransGen.cases_head_iff
  simp only [hwithin]
  constructor
  · rintro ⟨bits, h | ⟨p, hp, h⟩⟩
    · exact .inl ⟨bits, h⟩
    · exact .inr ⟨p, hp, bits, h⟩
  · rintro (⟨bits, h⟩ | ⟨p, hp, bits, h⟩)
    · exact ⟨bits, .inl h⟩
    · exact ⟨bits, .inr ⟨p, hp, h⟩⟩

lemma any_isFraction_iff {j : Json} :
    j.any isFraction = true ↔ ∃ bits, (float bits).Within j := by
  induction j using inductionOn with
  | step j ih =>
    have hparts : j.parts.any (any isFraction) = true ↔
        ∃ p ∈ j.parts, ∃ bits, (float bits).Within p := by
      rw [List.any_eq_true]
      exact exists_congr fun p => and_congr_right (ih p)
    rw [exists_float_within_iff, ← hparts]
    cases j with
    | null | bool | int | float | string => simp [any, isFraction, parts]
    | array js => simp [any, parts]
    | object ms => simp [any, parts]

end Json

end Clausal
