import Clausal.Proofs.Json.Neat
import Clausal.Proofs.Json.Parsing
import Clausal.Proofs.Json.Sorting

/-!
# Canonical texts

The canonical text of a tidy value is made of printable ASCII with no white space outside strings,
it is read as the value up to the order of members, and it is the text of no other value.
-/

namespace Clausal

namespace Json

variable {n m : Nat} {j k : Json}

lemma Tidy.canonicalText_eq (h : Tidy n j) :
    j.canonicalText = .ok (j.sortMembers.render .canonical 0) := h.sortMembers.toText_eq _

lemma Tidy.denotes_canonical (h : Tidy n j) :
    Text.Denotes (j.sortMembers.render .canonical 0) j.sortMembers :=
  h.sortMembers.denotes_render JsonLayout.regular_canonical

/-- No text denotes a second value besides one that can be loaded. -/
lemma eq_of_denotes {t : Text} (hj : t.Denotes j) (hk : t.Denotes k) (h : j.Loadable) : j = k := by
  rcases Located.settles_length hj with ⟨-, l, hl, rfl⟩ | ⟨hnot, -⟩
  · rcases Located.settles_length hk with ⟨-, l', hl', rfl⟩ | ⟨-, f, hf, -⟩
    · cases hl.symm.trans hl'
      rfl
    · cases hl.symm.trans hf
  · exact (hnot h).elim

lemma Tidy.canonicalText_eq_iff (hj : Tidy n j) (hk : Tidy m k) :
    j.canonicalText = k.canonicalText ↔ Same j k := by
  rw [hj.canonicalText_eq, hk.canonicalText_eq,
    same_iff_sortMembers_eq hj.loadable.1 hk.loadable.1]
  constructor
  · intro h
    -- one text denotes both values, so they are the same after sorting
    have hdenotes := hj.denotes_canonical
    rw [Except.ok.inj h] at hdenotes
    exact eq_of_denotes hdenotes hk.denotes_canonical hj.sortMembers.loadable
  · intro h
    rw [h]

/-- The canonical text is read as the value up to the order of members, unless a parser gives up on
its nesting. -/
lemma Tidy.parse_canonical (h : Tidy n j) (parser : Parser) :
    (∃ l, Located.parse parser (j.sortMembers.render .canonical 0) = .ok l ∧ Same j l.plain) ∨
    (Located.parse parser (j.sortMembers.render .canonical 0) = .error (.misuse .callsTooDeep) ∧
      parser.levels < j.height) := by
  have hdistinct := h.loadable.1
  have hdenotes := h.denotes_canonical
  rcases Located.parse_eq_or_gives_up parser (j.sortMembers.render .canonical 0) with
    heq | ⟨hup, hrefused⟩
  -- the parser gives up only on values deeper than its levels
  · rcases Located.settles_length hdenotes with ⟨-, l, hl, hplain⟩ | ⟨hnot, -⟩
    · exact .inl ⟨l, heq.trans hl, hplain ▸ same_sortMembers hdistinct⟩
    · exact (hnot h.sortMembers.loadable).elim
  · right
    rw [(same_sortMembers hdistinct).height_eq hdistinct]
    exact ⟨hup, (Located.gives_up_deep hrefused).2 _ hdenotes⟩

lemma canonicalText_of_float {bits : UInt64} (h : (float bits).Within j) :
    j.canonicalText = .error (.misuse .fraction) := by
  have hany : j.sortMembers.any isFraction = true := by
    rw [any_sortMembers]
    exact any_isFraction_iff.mpr ⟨bits, h⟩
  rw [canonicalText, toText, if_pos hany]

/-- The canonical text of a tidy value is printable ASCII without white space outside strings. It is
read as the value up to the order of members, except that a parser may give up on a value that is
nested deeper than it has room for. Exactly the tidy values that are the same up to the order of
members have the same text, and a value that holds a fraction has none. -/
theorem canonicalText_faithful (parser : Parser) :
    (∀ n j, Tidy n j → ∃ t, j.canonicalText = .ok t ∧ (∀ c ∈ t, c.Printable) ∧
      (∀ c ∈ t.outside, CodePoint.isGap c = false) ∧
      ((∃ l, Located.parse parser t = .ok l ∧ Same j l.plain) ∨
        (Located.parse parser t = .error (.misuse .callsTooDeep) ∧ parser.levels < j.height)) ∧
      ∀ m k, Tidy m k → (k.canonicalText = .ok t ↔ Same j k)) ∧
    ∀ j bits, (float bits).Within j → j.canonicalText = .error (.misuse .fraction) := by
  refine ⟨fun n j h => ?_, fun j bits => canonicalText_of_float⟩
  have hneat := h.sortMembers.neat_render 0
  refine ⟨_, h.canonicalText_eq, hneat.printable, hneat.isGap_outside, h.parse_canonical parser,
    fun m k hk => ?_⟩
  rw [← h.canonicalText_eq_iff hk, ← h.canonicalText_eq]
  exact eq_comm

/-- Members are written in the order of their names, and what is no printable ASCII is escaped, a
character beyond the first plane as a surrogate pair. -/
theorem canonicalText_faithful_unordered :
    let b := (Text.ofChars ['b'], array [int (-12), null])
    let a := (Text.ofChars ['a'], string (Text.ofChars ['𝒳', '\x22', ' ', '\n']))
    let t := Text.ofString "\x7b\"a\":\"\\ud835\\udcb3\\\" \\n\",\"b\":[-12,null]\x7d"
    Tidy 3 (object [b, a]) ∧ (object [b, a]).canonicalText = .ok t ∧
      (∃ l, Located.parse .standard t = .ok l ∧ Same (object [b, a]) l.plain) ∧
      (object [a, b]).canonicalText = .ok t ∧
      (array [float 0, a.2]).canonicalText = .error (.misuse .fraction) := by
  intro b a t
  have hshort : (-12 : Int).natAbs < integerLimit := by
    rw [integerLimit_eq]
    exact Nat.lt_of_lt_of_le (by decide : 12 < 10 ^ 2)
      (Nat.pow_le_pow_right (by decide) (by decide))
  have hb : Tidy 2 b.2 := .array (by simpa using ⟨.int hshort, .null⟩)
  have ha : Tidy 2 a.2 := .string _
  have hnames : ∀ m ∈ [b, a], ∃ cs, m.1 = Text.ofChars cs := by simp [b, a]
  have hdistinct : ([b, a].map Prod.fst).Nodup := by decide
  have hba : Tidy 3 (object [b, a]) := .object hnames hdistinct (by simpa using ⟨hb, ha⟩)
  have hab : Tidy 3 (object [a, b]) :=
    .object (by simp [b, a]) (by decide) (by simpa using ⟨ha, hb⟩)
  have hsame : Same (object [b, a]) (object [a, b]) := same_of_perm (.swap _ _ _) hdistinct
  have ht : (object [b, a]).canonicalText = .ok t := by
    have hbsorted : b.2.sortMembers = b.2 := by simp [b, sortMembers]
    have hasorted : a.2.sortMembers = a.2 := by simp [a, sortMembers]
    have hsorted : (object [b, a]).sortMembers = object [a, b] := by
      rw [sortMembers, List.map_cons, List.map_cons, List.map_nil, hasorted, hbsorted,
        mergeSort_eq_of_perm (.swap _ _ _) hdistinct]
      exact congrArg object (List.mergeSort_of_pairwise (by decide))
    rw [hba.canonicalText_eq, hsorted]
    simp only [a, b, render, List.map_cons, List.map_nil]
    decide +kernel
  have hfloat : (float 0).Within (array [float 0, a.2]) := .single (by simp [parts])
  obtain ⟨hfaithful, hfraction⟩ := canonicalText_faithful .standard
  obtain ⟨_, ht', -, -, hanswer, huniq⟩ := hfaithful 3 _ hba
  obtain rfl := Except.ok.inj (ht.symm.trans ht')
  have hlow : (object [b, a]).height ≤ Parser.standard.levels := hba.height_le.trans (by decide)
  exact ⟨hba, ht, hanswer.resolve_right fun h => Nat.not_lt.mpr hlow h.2, (huniq 3 _ hab).mpr hsame,
    hfraction _ _ hfloat⟩

end Json

end Clausal
