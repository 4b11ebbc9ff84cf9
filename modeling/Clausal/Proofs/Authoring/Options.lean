import Clausal.Proofs.Authoring.Filtering

/-!
# What the options do

The options decide which documents are refused and nothing else. Refusing unknown fields turns some
outcomes into faults for an unknown field, limits turn some into faults for documents that are too
large, and all other outcomes stay what they are.
-/

namespace Clausal

variable {parser : Parser} {config : Config} {depth bytes : Int}

/-! ### Limits -/

namespace Source

/-- A limit that is exceeded and can be shown is what the document is refused for. -/
lemma failsFor_of_checkLimit {found : Nat} {limit : Int} {cause : Nat → Int → Cause}
    (hcause : ∀ found limit, (cause found limit).kind = .documentTooLarge)
    (hle : ¬(found : Int) ≤ limit) (hshown : ¬Unshown found limit) :
    (checkLimit found limit cause).FailsFor .documentTooLarge := by
  rw [checkLimit_of_lt (Int.not_le.mp hle) hshown]
  exact ⟨_, rfl, hcause _ _⟩

/-- A document is loaded as with higher limits, unless a limit stands in the way. -/
lemma load_limits (hdepth : config.maxDepth ≤ depth) (hbytes : config.maxDocumentBytes ≤ bytes)
    (s : Source) (hshown : ¬s.LimitUnshown parser config) : Filters .documentTooLarge
      (s.load parser config).outcome
      (s.load parser { config with maxDepth := depth, maxDocumentBytes := bytes }).outcome := by
  rw [LimitUnshown, not_or] at hshown
  obtain ⟨hsizeShown, hdepthShown⟩ := hshown
  by_cases hsize : ∀ n, s.size? = some n → (n : Int) ≤ config.maxDocumentBytes
  · have hsize' n (hn : s.size? = some n) : (n : Int) ≤ bytes := (hsize n hn).trans hbytes
    -- the text is read before its depth is known, and without regard to the limits
    cases hread : (s.read parser).outcome with
    | error e =>
      have hchecked : checkSize config s = .ok () := checkSize_eq_ok.mpr hsize
      have hchecked' : checkSize { config with maxDepth := depth, maxDocumentBytes := bytes } s =
        .ok () := checkSize_eq_ok.mpr hsize'
      refine .inl ?_
      simp only [load, Traced.outcome_bind, Traced.outcome_liftM, hchecked, hchecked', hread]
      rfl
    | ok d =>
      rw [outcome_load_of_read hsize hread, outcome_load_of_read hsize' hread]
      by_cases hle : (d.value.height : Int) ≤ config.maxDepth
      · rw [checkLimit_of_le hle, checkLimit_of_le (hle.trans hdepth)]
        exact .refl _
      · exact .inr (failsFor_of_checkLimit (fun _ _ => rfl) hle
          fun h => hdepthShown ⟨hsize, d, hread, h⟩).bind
  · simp only [not_forall, Int.not_le] at hsize
    obtain ⟨n, hn, hlt⟩ := hsize
    have hfails : (checkSize config s).FailsFor .documentTooLarge := by
      rw [checkSize, hn]
      exact failsFor_of_checkLimit (fun _ _ => rfl) (Int.not_le.mpr hlt)
        fun h => hsizeShown ⟨n, hn, h⟩
    simp only [load, Traced.outcome_bind, Traced.outcome_liftM]
    exact .inr hfails.bind

end Source

namespace Role

variable {r : Role} {s : Source} {x : r.Value}

/-- Limits concern documents, not values. -/
lemma denoteJson_limits (r : Role) (j : Json) :
    r.denoteJson { config with maxDepth := depth, maxDocumentBytes := bytes } j =
      r.denoteJson config j := by
  cases r <;> rfl

/-! ### Documents -/

lemma denote_filters_limits (hdepth : config.maxDepth ≤ depth)
    (hbytes : config.maxDocumentBytes ≤ bytes) (r : Role) (s : Source)
    (hshown : ¬s.LimitUnshown parser config) : Filters .documentTooLarge
      (r.denote parser config s).outcome
      (r.denote parser { config with maxDepth := depth, maxDocumentBytes := bytes } s).outcome := by
  simp only [outcome_denote, denoteJson_limits]
  exact (s.load_limits hdepth hbytes hshown).bind fun d => .refl _

lemma denote_filters_unknown (config : Config) (r : Role) (s : Source) :
    Filters .unknownField (r.denote parser config s).outcome
      (r.denote parser { config with rejectUnknownFields := false } s).outcome := by
  have hrelates : Relates config { config with rejectUnknownFields := false }
      fun _ => Filters .unknownField := Filters.relates rfl
  rw [outcome_denote, outcome_denote]
  apply Filters.bind (.refl _)
  intro d
  apply Filters.place
  exact (hrelates.role r _ _ (.refl d.value)).bind fun x => .refl _

/-- Where a document denotes a value, it denotes the value also with unknown fields refused, or
nothing at all, depending on the objects that are read. -/
lemma denote_refusing_iff
    (hx : (r.denote parser { config with rejectUnknownFields := false } s).outcome = .ok x) :
    ∃ d, (s.load parser config).outcome = .ok d ∧ ∀ y,
      (r.denote parser { config with rejectUnknownFields := true } s).outcome = .ok y ↔
        y = x ∧ AllKnown (r.objects d.value) := by
  obtain ⟨d, hload, hread, hvalid⟩ := outcome_denote_eq_ok.mp hx
  have hstricter : Config.Stricter { config with rejectUnknownFields := true }
      { config with rejectUnknownFields := false } := ⟨rfl, rfl⟩
  refine ⟨d, hload, fun y => ?_⟩
  rw [outcome_denote_eq_ok]
  constructor
  -- reading strictly is reading, and no object has another field
  · rintro ⟨d', hload', hread', -⟩
    obtain rfl : d' = d := Except.ok.inj (hload'.symm.trans hload)
    obtain ⟨hread', hknown⟩ := (hstricter.role r _ _).mp hread'
    exact ⟨Except.ok.inj (hread'.symm.trans hread), hknown⟩
  · rintro ⟨rfl, hknown⟩
    exact ⟨d, hload, (hstricter.role r _ _).mpr ⟨hread, hknown⟩, hvalid⟩

/-- The options only filter. An outcome that is no fault for an unknown field is the same if these
are passed over; a document that denotes a value then denotes it also if they are refused, provided
that the objects which are read have known members only, and nothing else; and an outcome that is
no fault for a document too large is the same with higher limits, unless a limit is exceeded that
cannot be shown. -/
theorem denote_of_options (parser : Parser) (r : Role) (s : Source) (config : Config) :
    (¬(r.denote parser config s).outcome.FailsFor .unknownField →
      (r.denote parser { config with rejectUnknownFields := false } s).outcome =
        (r.denote parser config s).outcome) ∧
    (∀ x, (r.denote parser { config with rejectUnknownFields := false } s).outcome = .ok x →
      ∃ d, (s.load parser config).outcome = .ok d ∧
        ((∃ y, (r.denote parser { config with rejectUnknownFields := true } s).outcome = .ok y) ↔
          ∀ o ∈ r.objects d.value, o.Known) ∧
        ∀ y, (r.denote parser { config with rejectUnknownFields := true } s).outcome = .ok y →
          y = x) ∧
    ∀ depth bytes, config.maxDepth ≤ depth → config.maxDocumentBytes ≤ bytes →
      ¬(r.denote parser config s).outcome.FailsFor .documentTooLarge →
      ¬s.LimitUnshown parser config →
      (r.denote parser { config with maxDepth := depth, maxDocumentBytes := bytes } s).outcome =
        (r.denote parser config s).outcome := by
  refine ⟨?_, ?_, ?_⟩
  · intro h
    exact ((denote_filters_unknown config r s).resolve_right h).symm
  · intro x hx
    obtain ⟨d, hload, hiff⟩ := denote_refusing_iff hx
    refine ⟨d, hload, ?_, fun y hy => ((hiff y).mp hy).1⟩
    constructor
    · rintro ⟨y, hy⟩
      exact ((hiff y).mp hy).2
    · intro hknown
      exact ⟨x, (hiff x).mpr ⟨rfl, hknown⟩⟩
  · intro depth bytes hdepth hbytes h hshown
    exact ((denote_filters_limits hdepth hbytes r s hshown).resolve_right h).symm

/-- A limit that is exceeded and cannot be shown: a higher limit makes a fault of no fault. -/
theorem denote_ne_of_unshown :
    let low : Config := { maxDepth := -integerLimit }
    let raised : Config := { low with maxDepth := 64, maxDocumentBytes := low.maxDocumentBytes }
    low.maxDepth ≤ 64 ∧
      ¬(predicate.denote .standard low (.loaded (.object []))).outcome.FailsFor .documentTooLarge ∧
      (predicate.denote .standard raised (.loaded (.object []))).outcome ≠
        (predicate.denote .standard low (.loaded (.object []))).outcome := by
  intro low raised
  have hlow : low.maxDepth ≤ 0 := Int.neg_nonpos_of_nonneg (Int.natCast_nonneg _)
  have hunshown : Source.Unshown (Json.object []).height low.maxDepth := by
    refine ⟨?_, .inr (by rw [Int.natAbs_neg, Int.natAbs_natCast])⟩
    have : (Json.object []).height = 1 := by simp [Json.height]
    omega
  have hload : ((Source.loaded (.object [])).load .standard low).outcome =
      .error (.misuse .integerTooLong) := by
    rw [Source.outcome_load_loaded_eq, Source.checkLimit_of_unshown hunshown]
    rfl
  have hload' : ((Source.loaded (.object [])).load .standard raised).outcome =
      .ok (.loaded (.object [])) :=
    Source.outcome_load_loaded (by simp [raised, Json.height])
  have hraised : (predicate.denote .standard raised (.loaded (.object []))).outcome =
      .error (.fault ⟨.missingField "type", [.field "type"], none⟩) := by
    rw [outcome_denote_of_load hload', Document.place_loaded]
    rfl
  rw [outcome_denote_of_error hload, hraised]
  refine ⟨hlow.trans (by decide), ?_, by simp⟩
  rintro ⟨f, hf, -⟩
  cases hf

/-- An input with a member that nobody knows. -/
def strayMember : Text := "\x7b\"type\":\"SelfInput\",\"note\":[]\x7d"

theorem denote_of_options_strayMember : ∃ d,
    ((Source.text strayMember).load .standard {}).outcome = .ok d ∧
    ((input none none).denote .standard {} (.text strayMember)).outcome = .ok (.self []) ∧
    ¬∀ o ∈ (input none none).objects d.value, o.Known := by
  have hlenient : ((input none none).denote .standard {} (.text strayMember)).outcome =
      .ok (.self []) := by
    decide +kernel
  have hstrict : ((input none none).denote .standard { rejectUnknownFields := true }
      (.text strayMember)).outcome =
        .error (.fault ⟨.unknownField "note", [.field "note"], some ⟨1, 28⟩⟩) := by
    decide +kernel
  obtain ⟨d, hload, hiff, -⟩ := (denote_of_options .standard (input none none) _ {}).2.1 _ hlenient
  refine ⟨d, hload, hlenient, fun hknown => ?_⟩
  obtain ⟨y, hy⟩ := hiff.mpr hknown
  cases hstrict.symm.trans hy

end Role

end Clausal
