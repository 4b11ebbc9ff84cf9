import Clausal.Proofs.Json.Reading

/-!
# Complete tokens

A token in a text is complete when nothing behind it belongs to it: a word ends there, and a number
does not go on. Which tokens a text consists of up to some place is settled by the text alone, so
two cuts of one text into complete tokens agree as far as both go.
-/

namespace Clausal

/-! ### White space in front of a text -/

namespace Text

/-- The text does not start with white space. -/
def GapFree (t : Text) : Prop := ∀ c t', t = c :: t' → ¬Gap [c]

/-- White space ends where a text without white space in front begins. -/
lemma GapFree.prefix_of_append {w w' t t' : Text} (ht : t.GapFree) (hw' : w'.Gap)
    (h : w ++ t = w' ++ t') : w' <+: w := by
  -- on the first gap; the second cannot go on where the first stops, since `t` does not start with
  -- one
  induction w generalizing w' with
  | nil =>
    cases w' with
    | nil => exact List.prefix_rfl
    | cons c w' =>
      refine (ht c _ h fun d hd => ?_).elim
      rw [List.mem_singleton.mp hd]
      exact hw' c List.mem_cons_self
  | cons c w ih =>
    cases w' with
    | nil => exact List.nil_prefix
    | cons d w' =>
      have htail : w ++ t = w' ++ t' := (List.cons.inj h).2
      obtain rfl : c = d := (List.cons.inj h).1
      have hgap : Gap w' := fun e he => hw' e (List.mem_cons_of_mem c he)
      exact List.cons_prefix_cons.mpr ⟨rfl, ih hgap htail⟩

/-- Texts without white space in front are told from the white space before them. -/
lemma GapFree.append_inj {w w' t t' : Text} (ht : t.GapFree) (ht' : t'.GapFree) (hw : w.Gap)
    (hw' : w'.Gap) (h : w ++ t = w' ++ t') : w = w' ∧ t = t' := by
  have hle := (ht.prefix_of_append hw' h).length_le
  have hle' := (ht'.prefix_of_append hw h.symm).length_le
  exact List.append_inj h (Nat.le_antisymm hle' hle)

end Text

namespace Token

/-! ### Complete tokens -/

/-- The text `s` in front of `t` is a complete token: it spells the token, a word ends with it, and
nothing longer that starts there is a token. -/
structure Complete (tok : Token) (s t : Text) : Prop where
  spelled : Spelled tok s
  word : tok.kind = .true ∨ tok.kind = .false ∨ tok.kind = .null → endsWord t = Bool.true
  longest : ∀ tok' s', Spelled tok' s' → s' <+: s ++ t → s'.length ≤ s.length

lemma Spelled.kind_eq {tok tok' : Token} {s s' t : Text} (h : tok.Spelled s)
    (h' : tok'.Spelled s') (hs : s' <+: s ++ t) : tok'.kind = tok.kind := by
  obtain ⟨c, x, rfl, hc⟩ := h.exists_cons
  obtain ⟨d, y, rfl, hd⟩ := h'.exists_cons
  obtain ⟨z, hz⟩ := hs
  obtain rfl : d = c := (List.cons.inj hz).1
  exact Option.some.inj (hd.symm.trans hc)

/-- What is read where a token is spelled is at least as long. -/
lemma Spelled.length_le {tok tok' : Token} {s t : Text} {n : Nat} (h : tok.Spelled s)
    (hread : read? tok.kind (s ++ t) = some (tok', n)) : s.length ≤ n := by
  -- marks, words and strings are read in one way; a number may go on in the text that follows
  cases tok with
  | openBrace | closeBrace | openBracket | closeBracket | colon | comma | string =>
    cases (read?_append h nofun).symm.trans hread
    exact Nat.le_refl _
  | true | false | null =>
    cases h
    obtain ⟨-, rfl, -⟩ := readWord?_eq_some hread
    exact Nat.le_refl _
  | number l =>
    obtain ⟨hl, rfl⟩ := h
    obtain ⟨l', hl', hle⟩ := NumberLiteral.exists_read?_append hl t
    change (NumberLiteral.read? _).map _ = _ at hread
    rw [hl'] at hread
    cases hread
    rwa [l.spelling_length]

/-- The complete tokens are those that are read. -/
lemma complete_iff {tok : Token} {s t : Text} :
    tok.Complete s t ↔ read? tok.kind (s ++ t) = some (tok, s.length) := by
  constructor
  · rintro ⟨hs, hword, hlongest⟩
    cases tok with
    | openBrace | closeBrace | openBracket | closeBracket | colon | comma | string =>
      exact read?_append hs nofun
    | true | false | null =>
      cases hs
      exact readWord?_append (hword (by simp [kind]))
    | number l =>
      obtain ⟨hl, rfl⟩ := hs
      obtain ⟨l', hl', hle⟩ := NumberLiteral.exists_read?_append hl t
      obtain ⟨hwf, rest, hrest⟩ := NumberLiteral.eq_append_of_read? hl'
      have hle' : l'.spelling.length ≤ l.spelling.length :=
        hlongest (.number l') _ ⟨hwf, rfl⟩ ⟨rest, hrest.symm⟩
      -- no number is longer, so the one that is read is spelled alike
      have hlength : l'.spelling.length = l.spelling.length := by
        rw [l.spelling_length, l'.spelling_length] at *
        exact Nat.le_antisymm hle' hle
      have hspelling : l'.spelling = l.spelling := (List.append_inj hrest.symm hlength).1
      have hnil : Text.Delimited [] := fun c t' h => by cases h
      have hread := NumberLiteral.read?_append hl hnil
      rw [← hspelling, NumberLiteral.read?_append hwf hnil] at hread
      cases hread
      change (NumberLiteral.read? _).map _ = _
      rw [hl', Option.map_some, l.spelling_length]
  · intro hread
    obtain ⟨-, x, rest, hsplit, hlength, hx⟩ := spelled_of_read? hread
    obtain ⟨rfl, rfl⟩ := List.append_inj hsplit hlength.symm
    refine ⟨hx, fun hword => ?_, fun tok' s' hs' hstarts => ?_⟩
    · cases tok with
      | true | false | null =>
        cases hx
        exact endsWord_of_readWord? hread
      | _ => simp [kind] at hword
    · have hkind := hx.kind_eq hs' hstarts
      obtain ⟨u, hu⟩ := hstarts
      rw [← hu, ← hkind] at hread
      exact hs'.length_le hread

lemma Complete.ne_nil {tok : Token} {s t : Text} (h : tok.Complete s t) : s ≠ [] := by
  obtain ⟨c, x, rfl, -⟩ := h.spelled.exists_cons
  exact List.cons_ne_nil c x

lemma Complete.gapFree {tok : Token} {s t : Text} (h : tok.Complete s t) :
    (s ++ t).GapFree := by
  obtain ⟨c, x, rfl, hc⟩ := h.spelled.exists_cons
  rintro d t' ht hgap
  obtain rfl : c = d := (List.cons.inj ht).1
  have := Text.gap_iff.mp hgap c List.mem_cons_self
  rw [isGap_of_kindAt? hc] at this
  cases this

/-- At most one complete token stands in front of a text. -/
lemma Complete.unique {tok tok' : Token} {s s' t t' : Text} (h : tok.Complete s t)
    (h' : tok'.Complete s' t') (ht : s ++ t = s' ++ t') : tok = tok' ∧ s = s' ∧ t = t' := by
  have hread := complete_iff.mp h
  have hread' := complete_iff.mp h'
  rw [← ht, h.spelled.kind_eq h'.spelled ⟨t', ht.symm⟩, hread] at hread'
  obtain ⟨rfl, hlength⟩ := Prod.mk.inj (Option.some.inj hread')
  exact ⟨rfl, List.append_inj ht hlength⟩

/-! ### Cuts into complete tokens -/

/-- The first text consists of white space and complete tokens, with the second text behind it. -/
inductive Lexed : List Token → Text → Text → Prop
  | nil {w t : Text} (gap : w.Gap) : Lexed [] w t
  | cons {tok : Token} {toks : List Token} {w s b t : Text} (gap : w.Gap)
      (head : Complete tok s (b ++ t)) (tail : Lexed toks b t) :
      Lexed (tok :: toks) (w ++ (s ++ b)) t

namespace Lexed

lemma allSpelled {toks : List Token} {b t : Text} (h : Lexed toks b t) : AllSpelled toks b := by
  induction h with
  | nil gap => exact .nil gap
  | cons gap head tail ih => exact .cons gap head.spelled ih

/-- Of two cuts of one text, one that ends before a text without white space in front goes at least
as far as the other, or the other goes on with the token that stands there. -/
lemma prefix_or {toks toks' : List Token} {b t b' t' : Text} (h : Lexed toks b t)
    (h' : Lexed toks' b' t') (ht : t.GapFree) (heq : b ++ t = b' ++ t') :
    (toks' <+: toks ∧ b' <+: b) ∨
      ∃ tok more s r, toks' = toks ++ tok :: more ∧ t = s ++ r ∧ tok.Complete s r := by
  -- on the first lexing, with the second taken apart beside it: both start with the same token, or
  -- one of them is at its end
  induction h generalizing toks' b' t' with
  | @nil w t gap =>
    cases h' with
    | nil gap' => exact .inl ⟨List.prefix_rfl, ht.prefix_of_append gap' heq⟩
    | @cons tok more w' s b' _ gap' head tail =>
      rw [List.append_assoc, List.append_assoc] at heq
      obtain ⟨-, rfl⟩ := ht.append_inj head.gapFree gap gap' heq
      exact .inr ⟨tok, more, s, b' ++ t', rfl, rfl, head⟩
  | @cons tok toks w s b t gap head tail ih =>
    rw [List.append_assoc, List.append_assoc] at heq
    cases h' with
    | nil gap' =>
      have hgap := head.gapFree.prefix_of_append gap' heq
      exact .inl ⟨List.nil_prefix, hgap.trans (List.prefix_append _ _)⟩
    | @cons tok' toks' w' s' b' _ gap' head' tail' =>
      rw [List.append_assoc, List.append_assoc] at heq
      obtain ⟨rfl, hrest⟩ := head.gapFree.append_inj head'.gapFree gap gap' heq
      obtain ⟨rfl, rfl, htail⟩ := head.unique head' hrest
      rcases ih tail' ht htail with ⟨htoks, hb⟩ | ⟨tok', more, x, r, rfl, rfl, hcomplete⟩
      · refine .inl ⟨List.cons_prefix_cons.mpr ⟨rfl, htoks⟩, ?_⟩
        rwa [List.prefix_append_right_inj, List.prefix_append_right_inj]
      · exact .inr ⟨tok', more, x, r, rfl, rfl, hcomplete⟩

lemma prefix_of_nil {toks toks' : List Token} {t : Text} (h : Lexed toks t [])
    (h' : Lexed toks' t []) : toks' <+: toks := by
  rcases h.prefix_or h' nofun rfl with ⟨htoks, -⟩ | ⟨tok, more, s, r, -, hs, hcomplete⟩
  · exact htoks
  · exact (hcomplete.ne_nil (List.append_eq_nil_iff.mp hs.symm).1).elim

/-- A text consists of one sequence of complete tokens at most. -/
lemma unique {toks toks' : List Token} {t : Text} (h : Lexed toks t []) (h' : Lexed toks' t []) :
    toks = toks' :=
  (h'.prefix_of_nil h).eq_of_length_le (h.prefix_of_nil h').length_le

end Lexed

/-- The tokens along which a text is read to its end are complete. -/
lemma lexed_of_run {limit : Nat} {s : ParseState} {ts : List (Position × Token)} {b : Text}
    {tree : Tree} (h : AllSpelled (ts.map Prod.snd) b) (hrun : s.run limit ts = some (.done tree)) :
    Lexed (ts.map Prod.snd) b [] := by
  -- on the tokens, for any state: each is complete because the next one is expected
  induction ts generalizing s b with
  | nil => exact .nil h.gap
  | cons t ts ih =>
    obtain ⟨pos, tok⟩ := t
    obtain ⟨w, x, rest, rfl, hw, hx, hrest⟩ := h.exists_cons
    obtain ⟨s', hnext, -, hrun⟩ := ParseState.run_cons_eq_some.mp hrun
    refine .cons hw (complete_iff.mpr ?_) (ih hrest hrun)
    rw [List.append_nil]
    exact read?_append hx fun htok =>
      Tree.delimited_of_run (ParseState.expected_of_next hnext htok) hrest hrun

end Token

end Clausal
