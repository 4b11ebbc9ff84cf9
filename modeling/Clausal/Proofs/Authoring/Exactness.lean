import Clausal.Proofs.Authoring.Role

/-!
# Documents and their normal forms

An accepted document denotes the one value that is written as the normal form of the document. So
two accepted documents denote the same exactly if they have the same normal form.
-/

namespace Clausal.Role

variable {r : Role} {x y : r.Value} {parser : Parser} {config config' : Config}
  {s s' : Source}

lemma toJson_injective (hx : r.WellFormed x) (hy : r.WellFormed y) {j : Json}
    (hj : r.toJson x = .ok j) (hj' : r.toJson y = .ok j) : x = y := by
  have hread : r.ofJson {} j = .ok x := ofJson_of_toJson hx hj
  exact Except.ok.inj (hread.symm.trans (ofJson_of_toJson hy hj'))

/-- What is accepted is written back as the normal form of the document. -/
lemma exists_read_of_denote (h : (r.denote parser config s).outcome = .ok x) :
    ∃ d, (s.read parser).outcome = .ok d ∧ r.WellFormed x ∧
      r.toJson x = .ok (r.normalForm d.value) := by
  obtain ⟨d, hload, hread, -⟩ := outcome_denote_eq_ok.mp h
  obtain ⟨-, hd, -⟩ := Source.outcome_load_eq_ok.mp hload
  exact ⟨d, hd, wellFormed_of_ofJson hread, toJson_of_ofJson hread⟩

/-- Accepted documents are written back as their normal forms, and denote the same exactly if these
are the same. -/
theorem denote_eq_iff_normalForm_eq (hx : (r.denote parser config s).outcome = .ok x)
    (hy : (r.denote parser config' s').outcome = .ok y) :
    ∃ d d', (s.read parser).outcome = .ok d ∧ (s'.read parser).outcome = .ok d' ∧
      r.toJson x = .ok (r.normalForm d.value) ∧ r.toJson y = .ok (r.normalForm d'.value) ∧
      (x = y ↔ r.normalForm d.value = r.normalForm d'.value) := by
  obtain ⟨d, hd, hwf, hj⟩ := exists_read_of_denote hx
  obtain ⟨d', hd', hwf', hj'⟩ := exists_read_of_denote hy
  refine ⟨d, d', hd, hd', hj, hj', ?_, fun h => toJson_injective hwf hwf' hj (h ▸ hj')⟩
  rintro rfl
  exact Except.ok.inj (hj.symm.trans hj')

/-- A predicate without contracts, with a field that is null and one that nobody knows. -/
def strayFields : Json := .object [
  ("entryPoint", .string "e"), ("constants", .null), ("contracts", .array []),
  ("type", .string "CompiledPredicate"), ("name", .string "p"), ("note", .int 1),
  ("inputDefs", .array [])]

/-- The same predicate with its fields in order. -/
def plainFields : Json := .object [
  ("type", .string "CompiledPredicate"), ("name", .string "p"), ("inputDefs", .array []),
  ("contracts", .array []), ("entryPoint", .string "e")]

lemma denote_of_fields {j : Json} {p : Predicate} (hj : j.height ≤ 64)
    (hread : Predicate.ofJson {} j = .ok p) (hvalid : ∃ b, p.validate = .ok b) :
    (predicate.denote parser {} (.loaded j)).outcome = .ok p :=
  have hdepth : (j.height : Int) ≤ ({} : Config).maxDepth := by simpa using hj
  outcome_denote_eq_ok.mpr ⟨_, Source.outcome_load_loaded hdepth, hread, hvalid⟩

theorem denote_eq_iff_normalForm_eq_strayFields :
    ∃ p : Predicate, (predicate.denote .standard {} (.loaded strayFields)).outcome = .ok p ∧
      (predicate.denote .standard {} (.loaded plainFields)).outcome = .ok p ∧
      predicate.normalForm strayFields = predicate.normalForm plainFields := by
  have hstray : (predicate.denote .standard {} (.loaded strayFields)).outcome =
      .ok { name := [0x70], inputDefs := [], contracts := [], entryPoint := [0x65] } :=
    denote_of_fields (by simp [strayFields, Json.height]) rfl ⟨_, rfl⟩
  have hplain : (predicate.denote .standard {} (.loaded plainFields)).outcome =
      .ok { name := [0x70], inputDefs := [], contracts := [], entryPoint := [0x65] } :=
    denote_of_fields (by simp [plainFields, Json.height]) rfl ⟨_, rfl⟩
  obtain ⟨_, _, ⟨rfl⟩, ⟨rfl⟩, -, -, hiff⟩ := denote_eq_iff_normalForm_eq hstray hplain
  exact ⟨_, hstray, hplain, hiff.mp rfl⟩

end Clausal.Role
