import Clausal.Authoring.Denotation
import Clausal.Proofs.Authoring.Parts
import Clausal.Proofs.Json.Parsing
import Clausal.Proofs.Json.Walking

/-!
# Loading documents

A source is loaded when its text is not too large, can be read and is not nested too deeply. What is
denoted by a document depends on its value alone; only the positions of faults come from its text.
-/

namespace Clausal

namespace Traced

variable {α : Type}

@[simp] lemma outcome_liftM (x : Outcome α) : (liftM x : Traced α).outcome = x := rfl

@[simp] lemma outcome_note (n : Note) : (note n).outcome = .ok () := rfl

@[simp] lemma outcome_map {β : Type} (f : α → β) (x : Traced α) :
    (f <$> x).outcome = f <$> x.outcome := by
  change (x >>= fun a => pure (f a)).outcome = _
  rw [outcome_bind]
  cases x.outcome <;> rfl

end Traced

namespace Source

/-! ### Reading -/

section Reading

variable {x : Traced Located}

lemma outcome_ofReading_of_ok {l : Located} (h : x.outcome = .ok l) :
    (ofReading x).outcome = .ok (.located l) := by
  have hmap : (Document.located <$> x).outcome = .ok (.located l) := by
    rw [Traced.outcome_map, h]
    rfl
  simp only [ofReading, tryCatch, MonadExcept.tryCatch, hmap]

lemma outcome_ofReading_of_callsTooDeep (h : x.outcome = .error (.misuse .callsTooDeep)) :
    (ofReading x).outcome = refuse .nestingTooDeepToRead := by
  have hmap : (Document.located <$> x).outcome = .error (.misuse .callsTooDeep) := by
    rw [Traced.outcome_map, h]
    rfl
  simp only [ofReading, tryCatch, MonadExcept.tryCatch, hmap]
  rfl

lemma outcome_ofReading_of_error {e : Failure} (h : x.outcome = .error e)
    (he : e ≠ .misuse .callsTooDeep) : (ofReading x).outcome = .error e := by
  have hmap : (Document.located <$> x).outcome = .error e := by
    rw [Traced.outcome_map, h]
    rfl
  simp only [ofReading, tryCatch, MonadExcept.tryCatch, hmap]
  rfl

lemma outcome_ofReading_eq_ok {d : Document} :
    (ofReading x).outcome = .ok d ↔ ∃ l, x.outcome = .ok l ∧ d = .located l := by
  constructor
  · intro h
    cases hx : x.outcome with
    | ok l => exact ⟨l, rfl, (Except.ok.inj ((outcome_ofReading_of_ok hx).symm.trans h)).symm⟩
    | error e =>
      by_cases he : e = .misuse .callsTooDeep
      · cases (outcome_ofReading_of_callsTooDeep (he ▸ hx)).symm.trans h
      · cases (outcome_ofReading_of_error hx he).symm.trans h
  · rintro ⟨l, hl, rfl⟩
    exact outcome_ofReading_of_ok hl

end Reading

/-- What is read from a text can be loaded. -/
lemma loaded_or_loadable {parser : Parser} {s : Source} {d : Document}
    (h : (s.read parser).outcome = .ok d) : s = .loaded d.value ∨ d.value.Loadable := by
  cases s with
  | text t =>
    obtain ⟨l, hl, rfl⟩ := outcome_ofReading_eq_ok.mp h
    rw [Located.outcome_parseNoted] at hl
    exact .inr (Located.loadable_of_parse hl)
  | bytes bs =>
    obtain ⟨l, hl, rfl⟩ := outcome_ofReading_eq_ok.mp h
    rw [Located.parseBytesNoted] at hl
    split at hl
    · rw [Located.outcome_parseNoted] at hl
      exact .inr (Located.loadable_of_parse hl)
    · cases hl
  | loaded j =>
    cases h
    exact .inl rfl

/-- A document that was read from a text has objects without repeated names only. -/
lemma distinct_of_read {parser : Parser} {s : Source} {d : Document}
    (h : (s.read parser).outcome = .ok d) : d.Distinct := by
  intro hstart
  obtain hs | hloadable := loaded_or_loadable h
  · rw [hs] at h
    rw [← Except.ok.inj h] at hstart
    cases hstart
  · exact hloadable.1

/-! ### Limits -/

variable {parser : Parser} {config : Config}

/-- A limit is exceeded, but the wording that says so would show a number that is too long. -/
def Unshown (found : Nat) (limit : Int) : Prop :=
  limit < found ∧ (integerLimit ≤ found ∨ integerLimit ≤ limit.natAbs)

section Limits

variable {found : Nat} {limit : Int} {cause : Nat → Int → Cause}

lemma checkLimit_of_le (h : (found : Int) ≤ limit) : checkLimit found limit cause = .ok () :=
  if_neg (Int.not_lt.mpr h)

lemma checkLimit_of_unshown (h : Unshown found limit) :
    checkLimit found limit cause = .error (.misuse .integerTooLong) := by
  rw [checkLimit, if_pos h.1]
  split
  · next hfound =>
    exact Outcome.refuseShowing_of_le (h.2.resolve_left (Nat.not_le.mpr hfound))
  · rfl

lemma checkLimit_of_lt (h : limit < found) (hshown : ¬Unshown found limit) :
    checkLimit found limit cause = refuse (cause found limit) := by
  rw [Unshown, not_and_or, not_or, Nat.not_le, Nat.not_le] at hshown
  obtain ⟨hfound, hlimit⟩ := hshown.resolve_left (not_not.mpr h)
  rw [checkLimit, if_pos h, if_pos hfound, Outcome.refuseShowing_of_lt hlimit]

/-- Nothing is said of what is within a limit; what is not is refused if that can be said. -/
lemma checkLimit_cases (found : Nat) (limit : Int) (cause : Nat → Int → Cause) :
    (found : Int) ≤ limit ∧ checkLimit found limit cause = .ok () ∨
    Unshown found limit ∧ checkLimit found limit cause = .error (.misuse .integerTooLong) ∨
    limit < found ∧ ¬Unshown found limit ∧
      checkLimit found limit cause = refuse (cause found limit) := by
  by_cases h : Unshown found limit
  · exact .inr (.inl ⟨h, checkLimit_of_unshown h⟩)
  · rcases Int.lt_or_le limit found with hlt | hle
    · exact .inr (.inr ⟨hlt, h, checkLimit_of_lt hlt h⟩)
    · exact .inl ⟨hle, checkLimit_of_le hle⟩

lemma checkLimit_eq_ok {u : Unit} :
    checkLimit found limit cause = .ok u ↔ (found : Int) ≤ limit := by
  refine ⟨fun h => ?_, checkLimit_of_le⟩
  rcases checkLimit_cases found limit cause with ⟨hle, -⟩ | ⟨-, hx⟩ | ⟨-, -, hx⟩
  · exact hle
  · cases hx.symm.trans h
  · cases hx.symm.trans h

end Limits

lemma checkDepth_eq_ok {d : Document} {u : Unit} :
    checkDepth config d = .ok u ↔ (d.value.height : Int) ≤ config.maxDepth := by
  rw [checkDepth, checkLimit_eq_ok, Json.depth_eq]

lemma checkSize_eq_ok {s : Source} {u : Unit} :
    checkSize config s = .ok u ↔ ∀ n, s.size? = some n → (n : Int) ≤ config.maxDocumentBytes := by
  unfold checkSize
  cases s.size? with
  | none => simp
  | some n => simp [checkLimit_eq_ok]

lemma outcome_load_eq_ok {s : Source} {d : Document} : (s.load parser config).outcome = .ok d ↔
    (∀ n, s.size? = some n → (n : Int) ≤ config.maxDocumentBytes) ∧
      (s.read parser).outcome = .ok d ∧ (d.value.height : Int) ≤ config.maxDepth := by
  simp only [load, Traced.outcome_bind, Traced.outcome_liftM, Traced.outcome_pure,
    Outcome.bind_eq_ok, checkSize_eq_ok, checkDepth_eq_ok]
  constructor
  · rintro ⟨_, hsize, _, hread, _, hdepth, ⟨rfl⟩⟩
    exact ⟨hsize, hread, hdepth⟩
  · rintro ⟨hsize, hread, hdepth⟩
    exact ⟨(), hsize, d, hread, (), hdepth, rfl⟩

/-- What is not too large and can be read is loaded, if it is not nested too deeply. -/
lemma outcome_load_of_read {s : Source} {d : Document}
    (hsize : ∀ n, s.size? = some n → (n : Int) ≤ config.maxDocumentBytes)
    (hread : (s.read parser).outcome = .ok d) : (s.load parser config).outcome =
      checkLimit d.value.height config.maxDepth .nestingTooDeep >>= fun _ => .ok d := by
  have hchecked : checkSize config s = .ok () := checkSize_eq_ok.mpr hsize
  simp only [load, Traced.outcome_bind, Traced.outcome_liftM, Traced.outcome_pure, hchecked,
    hread, Outcome.ok_bind, checkDepth, Json.depth_eq]

/-- A limit stands in the way, but not so that the wording could say it: the text is too large, or
what is read from it is nested too deeply. -/
def LimitUnshown (parser : Parser) (config : Config) (s : Source) : Prop :=
  (∃ n, s.size? = some n ∧ Unshown n config.maxDocumentBytes) ∨
    (∀ n, s.size? = some n → (n : Int) ≤ config.maxDocumentBytes) ∧
      ∃ d, (s.read parser).outcome = .ok d ∧ Unshown d.value.height config.maxDepth

/-- A value that is handed over has no size. -/
lemma outcome_load_loaded_eq (parser : Parser) (config : Config) (j : Json) :
    ((loaded j).load parser config).outcome =
    checkLimit j.height config.maxDepth .nestingTooDeep >>= fun _ => .ok (.loaded j) := by
  have hsize : ∀ n, (loaded j).size? = some n → (n : Int) ≤ config.maxDocumentBytes := by
    simp [size?]
  exact outcome_load_of_read hsize rfl

lemma outcome_load_loaded {j : Json} (h : (j.height : Int) ≤ config.maxDepth) :
    ((loaded j).load parser config).outcome = .ok (.loaded j) :=
  outcome_load_eq_ok.mpr ⟨by simp [size?], rfl, h⟩

end Source

end Clausal
