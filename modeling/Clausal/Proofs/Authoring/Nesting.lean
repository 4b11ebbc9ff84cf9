import Clausal.Proofs.Authoring.Filtering
import Clausal.Proofs.Authoring.Kinds

/-!
# Documents that are nested too deeply

Before anything else is looked at, a document is refused if its value is higher than the limit,
also where parts that nobody reads make it so. A document within the limits is never refused for
being too large.
-/

namespace Clausal

lemma Outcome.FailsOnValue.place {α : Type} {x : Outcome α} (d : Document) (hx : x.FailsOnValue) :
    (d.place x).FailsOnValue := by
  cases x with
  | ok a => exact .ok a
  | error e =>
    intro e' he
    cases he
    have he := hx e rfl
    cases e <;> exact he

lemma Outcome.FailsOnValue.not_failsFor {α : Type} {x : Outcome α} {kind : FaultKind}
    (hx : x.FailsOnValue) (hkind : kind ∉ Json.faultKinds) : ¬x.FailsFor kind := by
  rintro ⟨f, hf, rfl⟩
  exact hkind (hx _ hf)

namespace Role

variable {parser : Parser} {config : Config} {s : Source} {d : Document}

/-- What can be read is stopped by its nesting, or it is what its value is. -/
lemma outcome_denote_of_read (r : Role)
    (hsize : ∀ n, s.size? = some n → (n : Int) ≤ config.maxDocumentBytes)
    (hread : (s.read parser).outcome = .ok d) : (r.denote parser config s).outcome =
      if config.maxDepth < d.value.height then
        if integerLimit ≤ d.value.height ∨ integerLimit ≤ config.maxDepth.natAbs then
          .error (.misuse .integerTooLong)
        else refuse (.nestingTooDeep d.value.height config.maxDepth)
      else d.place (r.denoteJson config d.value) := by
  rw [outcome_denote, Source.outcome_load_of_read hsize hread]
  split
  · next hlt =>
    split
    · next hlong =>
      rw [Source.checkLimit_of_unshown ⟨hlt, hlong⟩]
      rfl
    · next hshort =>
      rw [Source.checkLimit_of_lt hlt fun h => hshort h.2]
      rfl
  · next hle =>
    rw [Source.checkLimit_of_le (Int.not_lt.mp hle)]
    rfl

lemma failsFor_documentTooLarge_iff (r : Role)
    (hsize : ∀ n, s.size? = some n → (n : Int) ≤ config.maxDocumentBytes)
    (hread : (s.read parser).outcome = .ok d) :
    (r.denote parser config s).outcome.FailsFor .documentTooLarge ↔
      config.maxDepth < d.value.height ∧
        ¬(integerLimit ≤ d.value.height ∨ integerLimit ≤ config.maxDepth.natAbs) := by
  rw [outcome_denote_of_read r hsize hread]
  split
  · next hlt =>
    split
    · next hlong =>
      refine iff_of_false ?_ fun h => h.2 hlong
      rintro ⟨f, hf, -⟩
      cases hf
    · next hshort => exact iff_of_true ⟨_, rfl, rfl⟩ ⟨hlt, hshort⟩
  · next hle =>
    have hvalue := (r.denoteJson_failsOnValue config d.value).place d
    exact iff_of_false (hvalue.not_failsFor (by decide)) fun h => hle h.1

/-- The limit of nesting is one of height. However the pending values are taken, the walk over a
value comes to an end and has then found its height, in whatever order the members stand. A document
that is not too large and can be read is refused for being too large exactly if its value is higher
than the limit and both can be shown; it is then refused for its nesting, whatever else is wrong
with it. If they cannot be shown it ends in no fault, and if its value is not higher than the limit
it is what its value denotes. -/
theorem denote_nesting (parser : Parser) :
    (WellFounded fun w' w : Walk => w.Step w') ∧
    (∀ j : Json, (Walk.start j).Steps ⟨j.depth, []⟩ ∧ j.depth = j.height ∧
      (∀ w, (Walk.start j).Steps w →
        if w.pending = [] then w.found = j.height else ∃ w', w.Step w') ∧
      ∀ k, Json.Same j k → j.Distinct → k.depth = j.depth) ∧
    ∀ (r : Role) (config : Config) (s : Source) (d : Document),
      (∀ n, s.size? = some n → (n : Int) ≤ config.maxDocumentBytes) →
      (s.read parser).outcome = .ok d →
      ((r.denote parser config s).outcome.FailsFor .documentTooLarge ↔
        config.maxDepth < d.value.height ∧
          ¬(integerLimit ≤ d.value.height ∨ integerLimit ≤ config.maxDepth.natAbs)) ∧
      (r.denote parser config s).outcome =
        if config.maxDepth < d.value.height then
          if integerLimit ≤ d.value.height ∨ integerLimit ≤ config.maxDepth.natAbs then
            .error (.misuse .integerTooLong)
          else refuse (.nestingTooDeep d.value.height config.maxDepth)
        else d.place (r.denoteJson config d.value) := by
  refine ⟨Walk.wellFounded_step, fun j => ⟨j.steps_depth, j.depth_eq, fun w hw => ?_, ?_⟩, ?_⟩
  · split
    · next hend => exact hw.found_eq hend
    · next hpending => exact Walk.exists_step hpending
  · intro k h hj
    rw [k.depth_eq, j.depth_eq, h.height_eq hj]
  · intro r config s d hsize hread
    exact ⟨failsFor_documentTooLarge_iff r hsize hread, outcome_denote_of_read r hsize hread⟩

/-- A value above a limit that cannot be shown is not refused for its nesting. -/
theorem not_failsFor_of_unshown :
    let config : Config := { maxDepth := -integerLimit }
    config.maxDepth < (Document.loaded (.object [])).value.height ∧
      ((Source.loaded (.object [])).read .standard).outcome = .ok (.loaded (.object [])) ∧
      ¬(predicate.denote .standard config (.loaded (.object []))).outcome.FailsFor
        .documentTooLarge := by
  intro config
  have hheight : (Document.loaded (.object [])).value.height = 1 := by
    simp [Document.value, Json.height]
  have hlow : config.maxDepth ≤ 0 := Int.neg_nonpos_of_nonneg (Int.natCast_nonneg _)
  have hsize : ∀ n, (Source.loaded (.object [])).size? = some n →
      (n : Int) ≤ config.maxDocumentBytes := by simp [Source.size?]
  have hread : ((Source.loaded (.object [])).read .standard).outcome =
      .ok (.loaded (.object [])) := rfl
  refine ⟨by omega, hread, fun hfails => ?_⟩
  rw [failsFor_documentTooLarge_iff predicate hsize hread] at hfails
  exact hfails.2 (.inr (by rw [Int.natAbs_neg, Int.natAbs_natCast]))

/-- Two members of different heights. -/
def unevenMembers : Members := [("a", .null), ("b", .array [.null])]

/-- An object without a tag, nested four levels deep by a member that nobody knows. -/
def deepNote : Text := "\x7b\"note\":[[[]]]\x7d"

theorem denote_nesting_deepNote :
    (Walk.start (.object unevenMembers)).Steps (Walk.start (.object unevenMembers)) ∧
    (∃ w, (Walk.start (.object unevenMembers)).Step w) ∧
    Json.Same (.object unevenMembers) (.object unevenMembers.reverse) ∧
    Json.Distinct (.object unevenMembers) ∧
    Json.depth (.object unevenMembers.reverse) = Json.depth (.object unevenMembers) ∧
    ∃ d, (∀ n, (Source.text deepNote).size? = some n → (n : Int) ≤ 1024) ∧
      ((Source.text deepNote).read .standard).outcome = .ok d ∧ d.value.height = 4 ∧
      ((input none none).denote .standard { maxDepth := 3, maxDocumentBytes := 1024 }
        (.text deepNote)).outcome = refuse (.nestingTooDeep 4 3) ∧
      ¬((input none none).denote .standard { maxDepth := 4, maxDocumentBytes := 1024 }
        (.text deepNote)).outcome.FailsFor .documentTooLarge := by
  obtain ⟨-, hwalk, hdenote⟩ := denote_nesting .standard
  have hsame : Json.Same (.object unevenMembers) (.object unevenMembers.reverse) :=
    Json.same_of_perm (List.reverse_perm _).symm (by decide)
  have hnull : Json.Distinct .null := Json.distinct_iff.mpr (by simp [Json.parts])
  have harray : Json.Distinct (.array [.null]) :=
    Json.distinct_iff.mpr (by simp [Json.parts, hnull])
  have hdistinct : Json.Distinct (.object unevenMembers) := by
    refine Json.distinct_iff.mpr ⟨?_, by simp [Json.parts, unevenMembers, hnull, harray]⟩
    rintro _ ⟨rfl⟩
    decide
  have hsize : ∀ n, (Source.text deepNote).size? = some n → (n : Int) ≤ 1024 := by
    rintro _ ⟨rfl⟩
    decide +kernel
  have hdepth : (fun d => d.value.depth) <$> ((Source.text deepNote).read .standard).outcome =
      .ok 4 := by
    decide +kernel
  obtain ⟨d, hread, hd⟩ := Outcome.map_eq_ok.mp hdepth
  have hheight : d.value.height = 4 := by rw [← d.value.depth_eq, ← hd]
  obtain ⟨-, -, hsteps, horder⟩ := hwalk (.object unevenMembers)
  refine ⟨.refl, hsteps _ .refl, hsame, hdistinct, horder _ hsame hdistinct, d, hsize, hread,
    hheight, ?_, ?_⟩
  · obtain ⟨-, houtcome⟩ := hdenote (input none none) { maxDepth := 3, maxDocumentBytes := 1024 }
      _ d hsize hread
    have hlimit := thousand_lt_integerLimit
    rwa [hheight, if_pos (by decide), if_neg (by simp only [Int.reduceAbs]; omega)] at houtcome
  · obtain ⟨hiff, -⟩ := hdenote (input none none) { maxDepth := 4, maxDocumentBytes := 1024 }
      _ d hsize hread
    rw [hiff, hheight]
    decide

end Role

end Clausal
