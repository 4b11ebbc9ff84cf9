import Clausal.Proofs.Authoring.Explaining
import Clausal.Proofs.Authoring.RoundTrip

/-!
# Representations of a value

A value can be handed over as it is or written as a text in many ways, with its members in any
order. Unless unknown fields are refused, all of these documents denote the same or have the same
fault, in different places of their texts. Only a value that was never written, with an integer too
long to be shown, is not answered with a fault.
-/

namespace Clausal

/-- Both operations answer the same, or both end in a fault, and the faults differ in their
positions at most. -/
def Outcome.Alike {α : Type} (x y : Outcome α) : Prop :=
  (∃ a, x = .ok a ∧ y = .ok a) ∨
    ∃ f g : Fault, x = .error (.fault f) ∧ y = .error (.fault g) ∧ f.cause = g.cause ∧
      f.path = g.path

/-- The source can be read as a document and is not too large. Objects that are handed over as they
are have no two members of one name. -/
structure Source.Reads (parser : Parser) (config : Config) (s : Source) (d : Document) : Prop where
  size : ∀ n, s.size? = some n → (n : Int) ≤ config.maxDocumentBytes
  read : (s.read parser).outcome = .ok d
  distinct : ∀ j, s = .loaded j → j.Distinct

namespace Outcome.Alike

variable {α : Type} {x y : Outcome α}

lemma ne_misuse {m : Misuse} (h : Alike x y) : x ≠ .error (.misuse m) := by
  rintro rfl
  obtain ⟨_, h, -⟩ | ⟨_, _, h, -⟩ := h <;> cases h

/-- Faults are alike wherever they are placed. -/
lemma place_iff {d e : Document} :
    Alike (d.place x) (e.place x) ↔ ∀ m, x ≠ .error (.misuse m) := by
  constructor
  · intro h m hx
    exact h.ne_misuse (Document.place_eq_misuse.mpr hx)
  · intro hx
    cases x with
    | ok a => exact .inl ⟨a, rfl, rfl⟩
    | error failure =>
      cases failure with
      | fault f => exact .inr ⟨_, _, rfl, rfl, rfl, rfl⟩
      | misuse m => exact (hx m rfl).elim

end Outcome.Alike

/-! ### Loading -/

namespace Source

variable {parser : Parser} {config : Config} {s : Source} {d : Document}

namespace Reads

lemma value_distinct (h : s.Reads parser config d) : d.value.Distinct := by
  rcases loaded_or_loadable h.read with hs | hloadable
  · exact h.distinct _ hs
  · exact hloadable.1

lemma short (h : s.Reads parser config d) (hs : s ≠ .loaded d.value) : d.value.Short :=
  ((loaded_or_loadable h.read).resolve_left hs).2

/-- What is read is loaded, if it is not nested too deeply. -/
lemma outcome_load (h : s.Reads parser config d) : (s.load parser config).outcome =
    checkLimit d.value.height config.maxDepth .nestingTooDeep >>= fun _ => .ok d :=
  outcome_load_of_read h.size h.read

end Reads

end Source

/-! ### Denoting -/

namespace Role

variable {parser : Parser} {config : Config} {s t : Source} {d e : Document} {r : Role}

lemma denoteJson_eq_of_same (hc : config.rejectUnknownFields = false) {j k : Json}
    (h : Json.Same j k) : r.denoteJson config j = r.denoteJson config k := by
  have hread : r.ofJson config j = r.ofJson config k := (r.orderless_ofJson j k h).2 hc
  rw [denoteJson, denoteJson, hread]

/-- Values that are the same denote the same, and are not answered with a fault only if both hold an
integer that is too long to be shown. -/
lemma denoteJson_eq_misuse {j k : Json} {m : Misuse} (hc : config.rejectUnknownFields = false)
    (h : Json.Same j k) (hj : r.denoteJson config j = .error (.misuse m)) :
    m = .integerTooLong ∧ ¬j.Short ∧ ¬k.Short := by
  have hk : r.denoteJson config k = .error (.misuse m) := denoteJson_eq_of_same hc h ▸ hj
  exact ⟨(r.explains_denoteJson j _ hj).1, (r.explains_denoteJson j _ hj).2,
    (r.explains_denoteJson k _ hk).2⟩

/-- Documents with the same value denote the same or have the same fault, unless the fault would
show a number that is too long to be shown: a limit of the configuration that the value exceeds, or
an integer that no text holds. -/
theorem denote_alike_iff (hc : config.rejectUnknownFields = false) (hs : s.Reads parser config d)
    (ht : t.Reads parser config e) (h : Json.Same d.value e.value) :
    ((r.denote parser config s).outcome.Alike (r.denote parser config t).outcome ↔
      (r.denote parser config s).outcome ≠ .error (.misuse .integerTooLong)) ∧
    ((r.denote parser config s).outcome = .error (.misuse .integerTooLong) →
      (r.denote parser config t).outcome = .error (.misuse .integerTooLong) ∧
      (Source.Unshown d.value.height config.maxDepth ∨
        s = .loaded d.value ∧ t = .loaded e.value ∧ ¬d.value.Short ∧ ¬e.value.Short)) := by
  have hload := hs.outcome_load
  have hload' := ht.outcome_load
  rw [← h.height_eq hs.value_distinct] at hload'
  rcases Source.checkLimit_cases d.value.height config.maxDepth Cause.nestingTooDeep with
    ⟨-, hlimit⟩ | ⟨hunshown, hlimit⟩ | ⟨-, -, hlimit⟩
  · -- within the limit both are what their values denote
    rw [hlimit] at hload hload'
    rw [outcome_denote_of_load hload, outcome_denote_of_load hload', ← denoteJson_eq_of_same hc h,
      Outcome.Alike.place_iff, Ne, Document.place_eq_misuse, Document.place_eq_misuse]
    refine ⟨⟨fun h => h _, fun hx m hm => ?_⟩, fun hx => ⟨hx, .inr ?_⟩⟩
    · obtain ⟨rfl, -⟩ := denoteJson_eq_misuse hc h hm
      exact hx hm
    · obtain ⟨-, hshort, hshort'⟩ := denoteJson_eq_misuse hc h hx
      refine ⟨?_, ?_, hshort, hshort'⟩
      · by_contra hs'
        exact hshort (hs.short hs')
      · by_contra ht'
        exact hshort' (ht.short ht')
  · rw [hlimit] at hload hload'
    rw [outcome_denote_of_error hload, outcome_denote_of_error hload']
    refine ⟨iff_of_false (fun halike => halike.ne_misuse rfl) fun hne => hne rfl, fun _ => ?_⟩
    exact ⟨rfl, .inl hunshown⟩
  · rw [hlimit] at hload hload'
    rw [outcome_denote_of_error hload, outcome_denote_of_error hload']
    exact ⟨iff_of_true (.inr ⟨_, _, rfl, rfl, rfl, rfl⟩) nofun, nofun⟩

/-- An input with the given index. -/
def indexed (n : Int) : Json :=
  .object [("type", .string "NormalInput"), ("inputIndex", .int n)]

/-- The same input with its members in the other order. -/
def indexedBackwards (n : Int) : Json :=
  .object [("inputIndex", .int n), ("type", .string "NormalInput")]

lemma distinct_indexed (n : Int) : (indexed n).Distinct := by
  refine Json.distinct_iff.mpr ⟨?_, ?_⟩
  · rintro _ ⟨⟩
    exact (by decide : List.Nodup [Text.ofString "type", Text.ofString "inputIndex"])
  · have htype : (Json.string "NormalInput").Distinct :=
      Json.distinct_iff.mpr ⟨by simp, by simp [Json.parts]⟩
    have hindex : (Json.int n).Distinct := Json.distinct_iff.mpr ⟨by simp, by simp [Json.parts]⟩
    simpa [indexed, Json.parts] using ⟨htype, hindex⟩

lemma same_indexed (n : Int) : Json.Same (indexed n) (indexedBackwards n) :=
  Json.same_of_perm (List.Perm.swap _ _ _) ((Json.distinct_iff.mp (distinct_indexed n)).1 _ rfl)

lemma tidy_indexed {n : Int} (h : n.natAbs < integerLimit) : Json.Tidy 2 (indexed n) := by
  refine .object ?_ ((Json.distinct_iff.mp (distinct_indexed n)).1 _ rfl) ?_
  · simp only [List.forall_mem_cons]
    exact ⟨⟨_, rfl⟩, ⟨_, rfl⟩, List.forall_mem_nil _⟩
  · simp only [List.forall_mem_cons]
    exact ⟨.string _, .int h, List.forall_mem_nil _⟩

theorem denote_alike_iff_indexed : ∃ d e,
    (Source.text ((indexed 7).render .oneLine 0)).Reads .standard {} d ∧
    (Source.loaded (indexedBackwards 7)).Reads .standard {} e ∧ Json.Same d.value e.value ∧
    ((input none none).denote .standard {} (.text ((indexed 7).render .oneLine 0))).outcome.Alike
      ((input none none).denote .standard {} (.loaded (indexedBackwards 7))).outcome := by
  have htidy : Json.Tidy 2 (indexed 7) := tidy_indexed (by decide +kernel)
  have hsize : (((indexed 7).render .oneLine 0).utf8Size : Int) ≤ ({} : Config).maxDocumentBytes :=
    by decide +kernel
  obtain ⟨d, hload, hvalue⟩ : ∃ d, ((Source.text ((indexed 7).render .oneLine 0)).load .standard
      {}).outcome = .ok d ∧ d.value = indexed 7 := Source.exists_load_of_denotes
    (htidy.denotes_render JsonLayout.regular_oneLine) htidy (by decide) hsize (by decide)
  obtain ⟨hsize, hread, -⟩ := Source.outcome_load_eq_ok.mp hload
  have htext : (Source.text ((indexed 7).render .oneLine 0)).Reads .standard {} d :=
    ⟨hsize, hread, nofun⟩
  have hsame := same_indexed 7
  have hloaded : (Source.loaded (indexedBackwards 7)).Reads .standard {}
      (.loaded (indexedBackwards 7)) := by
    refine ⟨nofun, rfl, ?_⟩
    rintro _ ⟨rfl⟩
    exact hsame.distinct (distinct_indexed 7)
  rw [← hvalue] at hsame
  refine ⟨d, _, htext, hloaded, hsame, (denote_alike_iff rfl htext hloaded hsame).1.mpr ?_⟩
  rw [outcome_denote_of_load hload, hvalue]
  exact fun h => by cases h

/-- A number too long to be shown is no index, but there is no fault that says so. -/
lemma inputIndex_of_long {n : Int} (h : integerLimit ≤ n.natAbs) :
    inputIndex n = .error (.misuse .integerTooLong) := by
  have hlimit := thousand_lt_integerLimit
  rw [inputIndex, if_neg (by omega), Outcome.refuseShowing_of_le h]

lemma ofJson_indexed_of_long {n : Int} (h : integerLimit ≤ n.natAbs) :
    Input.ofJson {} (indexed n) = .error (.misuse .integerTooLong) := by
  have hread : Input.ofJson {} (indexed n) =
      .normal <$> (inField "inputIndex" (inputIndex n) >>= fun i => .ok ⟨i, []⟩) := rfl
  rw [hread, inputIndex_of_long h]
  rfl

lemma denote_indexed_of_long {n : Int} (h : integerLimit ≤ n.natAbs) :
    ((input none none).denote parser {} (.loaded (indexed n))).outcome =
      .error (.misuse .integerTooLong) := by
  have hheight : ((indexed n).height : Int) ≤ ({} : Config).maxDepth := by
    simp [indexed, Json.height]
  rw [outcome_denote_of_load (Source.outcome_load_loaded hheight), Document.place_loaded]
  change (Input.ofJson {} (indexed n) >>= _) = _
  rw [ofJson_indexed_of_long h]
  rfl

/-- A loaded index with more digits than can be shown ends in no fault. -/
theorem not_alike_indexed : ∃ d, (Source.loaded (indexed integerLimit)).Reads .standard {} d ∧
    Json.Same d.value d.value ∧
    ¬((input none none).denote .standard {} (.loaded (indexed integerLimit))).outcome.Alike
      ((input none none).denote .standard {} (.loaded (indexed integerLimit))).outcome := by
  have hlong : integerLimit ≤ (integerLimit : Int).natAbs :=
    Nat.le_of_eq (Int.natAbs_natCast _).symm
  generalize (integerLimit : Int) = n at hlong
  have hreads : (Source.loaded (indexed n)).Reads .standard {} (.loaded (indexed n)) := by
    refine ⟨nofun, rfl, ?_⟩
    rintro _ ⟨rfl⟩
    exact distinct_indexed n
  exact ⟨_, hreads, .refl _, fun halike => halike.ne_misuse (denote_indexed_of_long hlong)⟩

end Role

end Clausal
