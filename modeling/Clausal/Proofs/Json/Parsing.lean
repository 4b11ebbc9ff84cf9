import Clausal.Proofs.Json.Recognizing

/-!
# What a parser answers

Whatever room a parser has for nested calls, it either gives up for the lack of it or answers as
reading token by token does. It gives up only where containers are nested deeper than its room is
sure to allow.
-/

namespace Clausal

/-- The number of containers inside each other that there is room for in every text. -/
def Parser.levels (parser : Parser) : Nat := (parser.room - 7) / 10

lemma Parser.le_levels (parser : Parser) : 19 ≤ parser.levels := by
  have := parser.ample
  rw [levels]
  omega

namespace Located

variable {parser : Parser} {t : Text}

lemma lineColumn_eq_place (parser : Parser) (t : Text) : parser.lineColumn t = t.place :=
  funext fun offset => parser.lineColumn_eq t offset

/-- The value in the node of a whole text. -/
lemma value_of_visited (tree : Tree) :
    (do match ← tree.visited with
      | .value l => return l
      | _ => lacksPart) = tree.resolve := by
  rw [Tree.visited]
  cases tree.resolve <;> rfl

/-- A parser gives up only where reading with the containers that it has room for is refused, and
answers as reading token by token does otherwise. -/
lemma parse_eq_or_gives_up (parser : Parser) (t : Text) :
    parse parser t = parseWithin t.length t ∨
      parse parser t = .error (.misuse .callsTooDeep) ∧
        Tree.read parser.levels t = refuse .nestingTooDeepToRead := by
  cases hparse : parser.parse t with
  -- the parser gives no answer, so neither does the grammar within its room, and that happens only
  -- where the reader finds the nesting too deep
  | none =>
    refine .inr ⟨by rw [parse, hparse], ?_⟩
    have hroom : 10 * parser.levels + 7 ≤ parser.room := by
      have := parser.ample
      rw [Parser.levels]
      omega
    have hanswers := answers_answer? parser.room parser.levels t
    cases hanswer : Rule.grammar.answer? parser.room t with
    | some a => cases hparse.symm.trans (parser.ready hanswer)
    | none =>
      rw [hanswer] at hanswers
      cases hanswers with
      | refused reading => exact reading
      | overflow room => exact (room hroom).elim
  -- an answer of the parser is one of the grammar; its depth is below the length of the text, so
  -- the reader with that limit gives it too
  | some a =>
    obtain ⟨n, hanswer⟩ := parser.sound hparse
    have hanswers := answers_answer? n t.length t
    have hread : Tree.read t.length t ≠ refuse .nestingTooDeepToRead := fun hrefused => by
      rcases Tree.readFrom_error hrefused with ⟨f, hf, hkind⟩ | ⟨-, hlength⟩
      · cases hf
        cases hkind
      · simp [ParseState.depth, Place.front] at hlength
    rw [hanswer] at hanswers
    left
    rw [parse, hparse, lineColumn_eq_place, parseWithin]
    cases hanswers with
    | refused reading => exact (hread reading).elim
    | tree reading visit =>
      rw [reading]
      dsimp only
      rw [visit]
      exact value_of_visited _
    | noMatch reading =>
      rw [reading]
      rfl

lemma parse_eq_of_answers (h : parse parser t ≠ .error (.misuse .callsTooDeep)) :
    parse parser t = parseWithin t.length t :=
  (parse_eq_or_gives_up parser t).resolve_right fun hup => h hup.1

/-- What is read from a text can be loaded. -/
lemma loadable_of_parse {l : Located} (h : parse parser t = .ok l) : l.plain.Loadable := by
  have hparse : parse parser t = parseWithin t.length t := parse_eq_of_answers (by simp [h])
  exact (denotes_of_parseWithin (hparse.symm.trans h)).2

/-- Where a parser gives up, every value that the text denotes is nested deeper than its room is
sure to allow, and the text is longer. -/
lemma gives_up_deep (h : Tree.read parser.levels t = refuse .nestingTooDeepToRead) :
    parser.levels < t.length ∧ ∀ j, t.Denotes j → parser.levels < j.height := by
  constructor
  · rcases Tree.readFrom_error h with ⟨f, hf, hkind⟩ | ⟨-, hlength⟩
    · cases hf
      cases hkind
    · simpa [ParseState.depth, Place.front] using hlength
  · intro j hj
    by_contra hlevels
    obtain ⟨tree, hread, -⟩ := exists_read hj (Nat.not_lt.mp hlevels)
    cases h.symm.trans hread

/-- A text that denotes a value is read as that value, or not, if a parser has room for it. -/
lemma settles_parse {j : Json} (h : t.Denotes j) (hlevels : j.height ≤ parser.levels) :
    Settles (parse parser t) (fun l => l.plain = j) j.Loadable := by
  rcases parse_eq_or_gives_up parser t with hparse | ⟨-, hrefused⟩
  · rw [hparse]
    exact settles_length h
  · exact (Nat.not_lt.mpr hlevels ((gives_up_deep hrefused).2 j h)).elim

/-- Reading answers the value that a JSON text denotes, unless an object repeats a name or an
integer is too long; a text that is no JSON text is a syntax error. Only where containers are nested
deeper than a parser has room for may it give up instead. -/
theorem parse_denotes_iff (parser : Parser) (t : Text) :
    (parse parser t = .error (.misuse .callsTooDeep) ∧ parser.levels < t.length ∧
      ∀ j, t.Denotes j → parser.levels < j.height) ∨
    (∀ j, (∃ l, parse parser t = .ok l ∧ l.plain = j) ↔ t.Denotes j ∧ j.Distinct ∧ j.Short) ∧
    ((∃ f : Fault, parse parser t = .error (.fault f) ∧ f.cause.kind = .authoringSyntaxError) ↔
      ¬∃ j, t.Denotes j) ∧
    ((∃ f : Fault, parse parser t = .error (.fault f) ∧
      (f.cause.kind = .duplicateName ∨ f.cause.kind = .documentTooLarge)) ↔
        ∃ j, t.Denotes j ∧ ¬(j.Distinct ∧ j.Short)) := by
  rcases parse_eq_or_gives_up parser t with hparse | ⟨hparse, hread⟩
  -- unless the parser gives up, the answer is that of the reader without limit, which settles the
  -- value of a text that has one
  · rw [hparse]
    refine .inr ⟨fun j => ⟨?_, ?_⟩, ⟨?_, syntaxError_of_not_denotes⟩, ⟨?_, ?_⟩⟩
    · rintro ⟨l, hl, rfl⟩
      exact denotes_of_parseWithin hl
    · rintro ⟨hj, hloadable⟩
      rcases settles_length hj with ⟨-, l, hl, hplain⟩ | ⟨hnot, -⟩
      · exact ⟨l, hl, hplain⟩
      · exact (hnot hloadable).elim
    · rintro ⟨f, hf, hkind⟩ ⟨j, hj⟩
      rcases settles_length hj with ⟨-, l, hl, -⟩ | ⟨-, f', hf', hkind'⟩
      · cases hf.symm.trans hl
      · cases hf.symm.trans hf'
        rw [hkind] at hkind'
        rcases hkind' with h | h <;> cases h
    · rintro ⟨f, hf, hkind⟩
      by_cases hjson : ∃ j, t.Denotes j
      · obtain ⟨j, hj⟩ := hjson
        rcases settles_length hj with ⟨-, l, hl, -⟩ | ⟨hnot, -⟩
        · cases hf.symm.trans hl
        · exact ⟨j, hj, hnot⟩
      · obtain ⟨f', hf', hkind'⟩ := syntaxError_of_not_denotes hjson
        cases hf.symm.trans hf'
        rw [hkind'] at hkind
        rcases hkind with h | h <;> cases h
    · rintro ⟨j, hj, hnot⟩
      rcases settles_length hj with ⟨hloadable, -⟩ | ⟨-, f, hf, hkind⟩
      · exact (hnot hloadable).elim
      · exact ⟨f, hf, hkind⟩
  · exact .inl ⟨hparse, gives_up_deep hread⟩

end Located

end Clausal
