import Clausal.Proofs.Authoring.Reordering
import Clausal.Proofs.Json.Parsing
import Clausal.Proofs.Json.Writing
import Clausal.Trace.Noted

/-!
# Reading back what was written

The authoring form of a valid node is read as the node again, be it handed over as a value or
written as a text: on one line, with every item on a line of its own, or canonically. The canonical
text puts the members of objects in another order, which makes no difference to the reader.
-/

namespace Clausal

open Json (Tidy)

variable {parser : Parser} {config : Config} {t : Text} {j : Json} {n : Nat} {l : JsonLayout}

/-- A text that denotes a tidy value is loaded as this value within the limits. -/
lemma Source.exists_load_of_denotes (hdenotes : t.Denotes j) (h : Tidy n j)
    (hlevels : n ≤ parser.levels) (hsize : (t.utf8Size : Int) ≤ config.maxDocumentBytes)
    (hdepth : (n : Int) ≤ config.maxDepth) :
    ∃ d, ((text t).load parser config).outcome = .ok d ∧ d.value = j := by
  have hheight := h.height_le
  rcases Located.settles_parse hdenotes (hheight.trans hlevels) with
    ⟨-, located, hparse, hplain⟩ | ⟨hnot, -⟩
  · have hread : ((text t).read parser).outcome = .ok (.located located) := by
      rw [read, outcome_ofReading_of_ok]
      rw [Located.outcome_parseNoted, hparse]
    refine ⟨.located located, outcome_load_eq_ok.mpr ⟨?_, hread, ?_⟩, hplain⟩
    · rintro _ ⟨rfl⟩
      exact hsize
    · change (located.plain.height : Int) ≤ _
      rw [hplain]
      omega
  · exact (hnot h.loadable).elim

namespace Role

variable {r : Role} {x : r.Value}

/-- The text denotes the value in the role, unless it is too large to be read. -/
def ReadBack (parser : Parser) (config : Config) (r : Role) (x : r.Value) (t : Text) : Prop :=
  (t.utf8Size : Int) ≤ config.maxDocumentBytes → (r.denote parser config (.text t)).outcome = .ok x

/-- A text is read back if what it is written from denotes the value. -/
lemma readBack_render (h : Tidy n j) (hl : l.Regular) (hlevels : n ≤ parser.levels)
    (hdepth : (n : Int) ≤ config.maxDepth) (hread : r.ofJson config j = .ok x)
    (hvalid : r.Valid x) : r.ReadBack parser config x (j.render l 0) := by
  intro hsize
  obtain ⟨d, hload, rfl⟩ :=
    Source.exists_load_of_denotes (h.denotes_render hl) h hlevels hsize hdepth
  exact outcome_denote_eq_ok.mpr ⟨d, hload, hread, hvalid⟩

/-- What denotes a value is loaded as it is, since only connectives are strings. -/
lemma source_ofJson (hr : r ≠ .connective) (h : r.ofJson config j = .ok x) :
    Source.ofJson j = .loaded j := by
  cases j with
  | string t =>
    cases r with
    | connective => exact (hr rfl).elim
    | _ => cases h
  | _ => rfl

/-- The authoring form of a valid value whose names are texts is read back, be it handed over as a
value or written as a text in any of the layouts. -/
theorem denote_of_toJson (hx : r.WellFormed x) (hvalid : r.Valid x)
    (hnames : ∀ n ∈ r.names x, Utf8.IsText n) (hdepth : 9 ≤ config.maxDepth) :
    ∃ j, r.toJson x = .ok j ∧
      (r ≠ .connective → (r.denote parser config (.ofJson j)).outcome = .ok x) ∧
      (∀ l : JsonLayout, (l = .oneLine ∨ ∃ n, l = .lines n) →
        ∃ t, j.toText l = .ok t ∧ r.ReadBack parser config x t) ∧
      ∃ t, j.canonicalText = .ok t ∧ r.ReadBack parser config x t := by
  obtain ⟨j, hj⟩ := (exists_toJson_iff r x).mpr hnames
  have hread : r.ofJson config j = .ok x := ofJson_of_toJson hx hj
  have htidy : Tidy 9 j := tidy_of_toJson hj
  have hlevels : 9 ≤ parser.levels := Nat.le_trans (by decide) parser.le_levels
  -- the canonical text is of the value with its members sorted, which denotes the same
  have hsorted : r.ofJson config j.sortMembers = .ok x :=
    (r.orderless_ofJson j _ (Json.same_sortMembers htidy.loadable.1)).1 x hread
  refine ⟨j, hj, fun hr => ?_, fun l hl => ?_, ?_⟩
  · have hheight : (j.height : Int) ≤ config.maxDepth := by
      have := htidy.height_le
      omega
    rw [source_ofJson hr hread]
    exact outcome_denote_eq_ok.mpr ⟨_, Source.outcome_load_loaded hheight, hread, hvalid⟩
  · have hregular : l.Regular := by
      rcases hl with rfl | ⟨n, rfl⟩
      · exact JsonLayout.regular_oneLine
      · exact JsonLayout.regular_lines n
    exact ⟨_, htidy.toText_eq l, readBack_render htidy hregular hlevels hdepth hread hvalid⟩
  · exact ⟨_, htidy.sortMembers.toText_eq _, readBack_render htidy.sortMembers
      JsonLayout.regular_canonical hlevels hdepth hsorted hvalid⟩

/-- A predicate whose name has a quotation mark, a line break and a character of two units. -/
def quoted : Predicate where
  name := Utf8.encode ['\x22', 'é', '\n', '😀']
  inputDefs := []
  contracts := [
    { name := [0x41], origin := [], connective := .not, inputDefs := [[0x78]]
      inputs := [.proposition
        { call := .input { index := 0 }, inputs := [.self [-1]], isCompiled := some true }] }]
  constants := some []
  entryPoint := [0x41]

lemma quoted_wellFormed : quoted.WellFormed where
  contractNames := by decide
  constantNames := by decide
  entryPoint := by decide
  contracts := by
    rintro _ (_ | ⟨_, h⟩)
    · exact .negation _
    · cases h

theorem denote_of_toJson_quoted : ∃ j, quoted.toJson = .ok j ∧
    (predicate.denote .standard {} (.ofJson j)).outcome = .ok quoted ∧
    (∃ t, j.toText (.lines 2) = .ok t ∧ predicate.ReadBack .standard {} quoted t) ∧
    ∃ t, j.canonicalText = .ok t ∧ predicate.ReadBack .standard {} quoted t := by
  have hnames : ∀ n ∈ quoted.names, Utf8.IsText n := by
    have hquoted : quoted.names = [['\x22', 'é', '\n', '😀'], ['A'], [], ['x'], ['A']].map
        Utf8.encode := by decide
    rw [hquoted]
    exact List.forall_mem_map.mpr fun cs _ => ⟨cs, rfl⟩
  have hvalid : predicate.Valid quoted := ⟨_, rfl⟩
  have hdepth : 9 ≤ ({} : Config).maxDepth := by decide
  obtain ⟨j, hj, hvalue, htext, hcanonical⟩ :=
    denote_of_toJson (r := .predicate) quoted_wellFormed hvalid hnames hdepth
  exact ⟨j, hj, hvalue nofun, htext _ (.inr ⟨2, rfl⟩), hcanonical⟩

end Role

end Clausal
