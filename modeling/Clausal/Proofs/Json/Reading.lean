import Clausal.Proofs.Json.Places
import Clausal.Proofs.Json.Resolving
import Mathlib.Data.List.TakeWhile
import Mathlib.Tactic.SplitIfs

/-!
# Reading texts

A text is read token by token along the steps of the machine, and the tree that is read is resolved.
So the texts that are read are exactly the JSON texts whose values can be loaded, and they are read
as the values that they denote.
-/

namespace Clausal

open Token (AllSpelled)

/-! ### Places -/

lemma CodePoint.isGap_iff {c : CodePoint} : CodePoint.isGap c = true ↔
    c = .scalar ' ' ∨ c = .scalar '\t' ∨ c = .scalar '\n' ∨ c = .scalar '\r' := by
  simp only [CodePoint.isGap, Bool.or_eq_true, decide_eq_true_eq]
  tauto

lemma Text.gap_iff {w : Text} : w.Gap ↔ ∀ c ∈ w, CodePoint.isGap c = true := by
  simp only [Text.Gap, CodePoint.isGap_iff]

namespace Place

lemma skipGaps_ahead (p : Place) : p.skipGaps.ahead = p.ahead.dropWhile CodePoint.isGap := by
  rw [skipGaps, advance_ahead]
  nth_rewrite 2 [← List.takeWhile_append_dropWhile (p := CodePoint.isGap) (l := p.ahead)]
  exact List.drop_left

lemma exists_skipGaps (p : Place) : ∃ w : Text, w.Gap ∧ p.ahead = w ++ p.skipGaps.ahead := by
  refine ⟨p.ahead.takeWhile CodePoint.isGap, ?_, ?_⟩
  · exact Text.gap_iff.mpr fun c hc => List.mem_takeWhile_imp hc
  · rw [skipGaps_ahead, List.takeWhile_append_dropWhile]

lemma skipGaps_of_gap {p : Place} (h : p.ahead.Gap) : p.skipGaps.ahead = [] := by
  rw [skipGaps_ahead, List.dropWhile_eq_nil_iff]
  exact Text.gap_iff.mp h

lemma skipGaps_of_append {p : Place} {w t : Text} {c : CodePoint} (hw : w.Gap)
    (hc : CodePoint.isGap c = false) (h : p.ahead = w ++ c :: t) : p.skipGaps.ahead = c :: t := by
  rw [skipGaps_ahead, h, List.dropWhile_append_of_pos (Text.gap_iff.mp hw),
    List.dropWhile_cons_of_neg (by simp [hc])]

/-- The place between two texts. -/
def between (b t : Text) : Place := ⟨b.reverse, t, b.endPosition⟩

lemma advance_between (b s t : Text) :
    (between b (s ++ t)).advance s.length = between (b ++ s) t := by
  induction s generalizing b with
  | nil => simp [between, advance]
  | cons c s ih =>
    have := ih (b ++ [c])
    rw [List.append_assoc] at this
    rw [List.singleton_append] at this
    rw [← this, List.length_cons, between, List.cons_append, advance, between]
    simp

/-- The next token stands behind the white space. -/
lemma skipGaps_between (b t : Text) : (between b t).skipGaps =
    between (b ++ t.takeWhile CodePoint.isGap) (t.dropWhile CodePoint.isGap) := by
  have := advance_between b (t.takeWhile CodePoint.isGap) (t.dropWhile CodePoint.isGap)
  rwa [List.takeWhile_append_dropWhile] at this

end Place

/-! ### Reading token by token -/

namespace Token

lemma readAny?_nil {kinds : List TokenKind} {tok : Token} {n : Nat} :
    readAny? kinds [] ≠ some (tok, n) := by
  intro h
  obtain ⟨-, s, rest, hs, -, hspelled⟩ := spelled_of_read? (readAny?_eq_some_iff.mp h).2
  obtain ⟨c, s, rfl, -⟩ := hspelled.exists_cons
  cases hs

lemma isGap_of_kindAt? {c : CodePoint} {k : TokenKind} (h : kindAt? c = some k) :
    CodePoint.isGap c = Bool.false := by
  by_contra hc
  rw [Bool.not_eq_false, CodePoint.isGap_iff] at hc
  rcases hc with rfl | rfl | rfl | rfl <;> cases h

lemma Spelled.exists_delimiter {tok : Token} {s : Text} (h : tok.Spelled s)
    (hk : tok.kind ∈ ParseState.closers) : ∃ c s', s = c :: s' ∧ c ∈ delimiters := by
  cases tok with
  | closeBrace | closeBracket | comma =>
    cases h
    exact ⟨_, _, rfl, by decide⟩
  | _ => simp [kind, ParseState.closers] at hk

end Token

namespace Tree

variable {limit limit' : Nat} {s s' : ParseState} {p : Place}

lemma readFrom_done {t : Tree} (h : p.skipGaps.ahead = []) :
    readFrom limit (.done t) p = .ok t := by
  generalize hs : ParseState.done t = s
  fun_cases readFrom limit s p with
  | case1 =>
    cases hs
    rfl
  | case2 s q hq hdone => exact (hdone t hs.symm).elim
  | case3 s q c rest hq | case4 s q c rest hq | case5 s q c rest hq | case6 s q c rest hq =>
    cases h.symm.trans hq

/-- Reading stops where nothing that is expected comes. -/
lemma readFrom_stuck (hdone : ∀ t, s = .done t → p.skipGaps.ahead ≠ [])
    (hstep : ∀ tok n s', Token.readAny? s.expected p.skipGaps.ahead = some (tok, n + 1) →
      s.next p.skipGaps.position tok ≠ some s') :
    readFrom limit s p = .error (p.skipGaps.unexpected s.expected) := by
  fun_cases readFrom limit s p with
  | case1 q hq t => exact (hdone t rfl hq).elim
  | case3 s q c rest hq tok n hread s' hnext | case4 s q c rest hq tok n hread s' hnext =>
    exact (hstep tok n s' (by rwa [show p.skipGaps.ahead = _ from hq]) hnext).elim
  | case2 | case5 | case6 => rfl

lemma readFrom_step {c : CodePoint} {rest : Text} {tok : Token} {n : Nat}
    (hahead : p.skipGaps.ahead = c :: rest)
    (hread : Token.readAny? s.expected (c :: rest) = some (tok, n + 1))
    (hnext : s.next p.skipGaps.position tok = some s') (hdepth : s'.depth ≤ limit) :
    readFrom limit s p = readFrom limit s' (p.skipGaps.advance (n + 1)) := by
  fun_cases readFrom limit s p with
  | case1 q hq | case2 q hq => cases hahead.symm.trans hq
  | case3 s q c' rest' hq tok' n' hread' s'' hnext' hdeep =>
    cases hahead.symm.trans hq
    cases hread.symm.trans hread'
    cases hnext.symm.trans hnext'
    exact (Nat.not_lt.mpr hdepth hdeep).elim
  | case4 s q c' rest' hq tok' n' hread' s'' hnext' =>
    cases hahead.symm.trans hq
    cases hread.symm.trans hread'
    cases hnext.symm.trans hnext'
    rfl
  | case5 s q c' rest' hq tok' n' hread' hnext' =>
    cases hahead.symm.trans hq
    cases hread.symm.trans hread'
    cases hnext.symm.trans hnext'
  | case6 s q c' rest' hq hread' =>
    cases hahead.symm.trans hq
    exact (hread' tok n hread).elim

lemma readFrom_refused {c : CodePoint} {tok : Token} {n : Nat}
    (hahead : p.skipGaps.ahead = c :: rest)
    (hread : Token.readAny? s.expected (c :: rest) = some (tok, n + 1))
    (hnext : s.next p.skipGaps.position tok = some s') (hdepth : limit < s'.depth) :
    readFrom limit s p = refuse .nestingTooDeepToRead := by
  fun_cases readFrom limit s p with
  | case1 q hq | case2 q hq => cases hahead.symm.trans hq
  | case3 => rfl
  | case4 s q c' rest' hq tok' n' hread' s'' hnext' hdepth' =>
    cases hahead.symm.trans hq
    cases hread.symm.trans hread'
    cases hnext.symm.trans hnext'
    exact (hdepth' hdepth).elim
  | case5 s q c' rest' hq tok' n' hread' hnext' =>
    cases hahead.symm.trans hq
    cases hread.symm.trans hread'
    cases hnext.symm.trans hnext'
  | case6 s q c' rest' hq hread' =>
    cases hahead.symm.trans hq
    exact (hread' tok n hread).elim

lemma exists_run_of_readFrom {t : Tree} (h : readFrom limit s p = .ok t) :
    ∃ ts : List (Position × Token), AllSpelled (ts.map Prod.snd) p.ahead ∧
      s.run limit ts = some (.done t) := by
  -- along the reading; it ends in a tree only at the end of the text
  fun_induction readFrom limit s p with
  | case1 p q hq t' =>
    cases h
    obtain ⟨w, hw, hp⟩ := p.exists_skipGaps
    refine ⟨[], .nil ?_, rfl⟩
    rw [hp, hq, List.append_nil]
    exact hw
  | case4 s p q c rest hq tok n hread s' hnext hdepth ih =>
    obtain ⟨ts, hts, hrun⟩ := ih h
    obtain ⟨-, x, rest', hrest, hx, hspelled⟩ :=
      Token.spelled_of_read? (Token.readAny?_eq_some_iff.mp hread).2
    obtain ⟨w, hw, hp⟩ := p.exists_skipGaps
    refine ⟨(q.position, tok) :: ts, ?_,
      ParseState.run_cons_eq_some.mpr ⟨s', hnext, Nat.not_lt.mp hdepth, hrun⟩⟩
    rw [Place.advance_ahead, hq, hrest, ← Nat.succ_eq_add_one, ← hx, List.drop_left] at hts
    rw [hp, show p.skipGaps.ahead = x ++ rest' from hq.trans hrest]
    exact .cons hw hspelled hts
  | _ => cases h

/-- Reading fails only for a token that cannot come, or for too many open containers. -/
lemma readFrom_error {e : Failure} (h : readFrom limit s p = .error e) :
    (∃ f : Fault, e = .fault f ∧ f.cause.kind = .authoringSyntaxError) ∨
      (e = .fault ⟨.nestingTooDeepToRead, [], none⟩ ∧ limit < s.depth + p.ahead.length) := by
  fun_induction readFrom limit s p with
  | case1 => cases h
  | case2 | case5 | case6 =>
    cases h
    exact .inl ⟨_, rfl, rfl⟩
  | case3 s p q c rest hq tok n hread s' hnext hdepth =>
    cases h
    -- the token is no shorter than the one container that it opens
    have := Place.advance_succ_ahead_length_lt hq n
    have := ParseState.depth_of_next hnext
    exact .inr ⟨rfl, by omega⟩
  | case4 s p q c rest hq tok n hread s' hnext hdepth ih =>
    have : (Place.advance (n + 1) q).ahead.length < p.ahead.length :=
      Place.advance_succ_ahead_length_lt hq n
    have := ParseState.depth_of_next hnext
    rcases ih h with h | ⟨he, hlimit⟩
    · exact .inl h
    · exact .inr ⟨he, by omega⟩

/-- A lower limit makes no difference, except that more texts are refused for it. -/
lemma readFrom_of_le (h : limit ≤ limit') :
    readFrom limit s p = readFrom limit' s p ∨
      readFrom limit s p = refuse .nestingTooDeepToRead := by
  -- with more room the reading takes the same steps, until the smaller room is used up
  fun_induction readFrom limit s p with
  | case1 p q hq t => exact .inl (readFrom_done hq).symm
  | case2 p q hq s hdone =>
    refine .inl (readFrom_stuck (fun t ht _ => hdone t ht) fun tok n s' hread _ => ?_).symm
    rw [show p.skipGaps.ahead = _ from hq] at hread
    exact Token.readAny?_nil hread
  | case3 => exact .inr rfl
  | case4 s p q c rest hq tok n hread s' hnext hdepth ih =>
    rwa [readFrom_step hq hread hnext ((Nat.not_lt.mp hdepth).trans h)]
  | case5 s p q c rest hq tok n hread hnext =>
    refine .inl (readFrom_stuck ?_ ?_).symm
    · rintro t - hnil
      cases hnil.symm.trans hq
    · intro tok' n' s' hread' hnext'
      rw [show p.skipGaps.ahead = _ from hq] at hread'
      cases hread.symm.trans hread'
      cases hnext.symm.trans hnext'
  | case6 s p q c rest hq hread =>
    refine .inl (readFrom_stuck ?_ ?_).symm
    · rintro t - hnil
      cases hnil.symm.trans hq
    · intro tok' n' s' hread' hnext'
      rw [show p.skipGaps.ahead = _ from hq] at hread'
      exact hread tok' n' hread'

lemma gap_subset_delimiters {w : Text} (h : w.Gap) : w ⊆ delimiters := by
  intro c hc
  rcases h c hc with rfl | rfl | rfl | rfl <;> simp [delimiters]

/-- Where no value may follow, a text that goes on well starts with a delimiter. -/
lemma delimited_of_run {ts : List (Position × Token)} {t : Text}
    (hs : s.expected ⊆ ParseState.closers) (ht : AllSpelled (ts.map Prod.snd) t)
    (hrun : s.run limit ts = some s') : t.Delimited := by
  rintro c t rfl
  -- what can come next is a gap, the end of the text, or a mark that starts the next token
  cases ts with
  | nil => exact gap_subset_delimiters ht.gap List.mem_cons_self
  | cons tok ts =>
    obtain ⟨pos, tok⟩ := tok
    obtain ⟨s₁, hnext, -⟩ := ParseState.run_cons_eq_some.mp hrun
    obtain ⟨w, x, rest, h, hw, hx, -⟩ := ht.exists_cons
    cases w with
    | nil =>
      obtain ⟨d, x, rfl, hd⟩ :=
        hx.exists_delimiter (hs (ParseState.exists_next_iff.mp ⟨s₁, hnext⟩))
      obtain rfl := (List.cons.inj h).1
      exact hd
    | cons d w =>
      obtain rfl := (List.cons.inj h).1
      exact gap_subset_delimiters hw List.mem_cons_self

/-- A text that is made of tokens is read along them. -/
lemma exists_positions {toks : List Token} (h : AllSpelled toks p.ahead) :
    ∃ ts : List (Position × Token), ts.map Prod.snd = toks ∧
      ∀ limit s t, s.run limit ts = some (.done t) → readFrom limit s p = .ok t := by
  -- on the tokens; where each of them stands follows from the ones before
  induction toks generalizing p with
  | nil =>
    refine ⟨[], rfl, fun limit s t hrun => ?_⟩
    obtain rfl : s = .done t := Option.some.inj hrun
    exact readFrom_done (Place.skipGaps_of_gap h.gap)
  | cons tok toks ih =>
    obtain ⟨w, x, rest, hp, hw, hx, hrest⟩ := h.exists_cons
    obtain ⟨c, x', rfl, hc⟩ := hx.exists_cons
    have hahead : p.skipGaps.ahead = c :: x' ++ rest :=
      Place.skipGaps_of_append hw (Token.isGap_of_kindAt? hc) hp
    have hadvance : (p.skipGaps.advance (x'.length + 1)).ahead = rest := by
      rw [Place.advance_ahead, hahead]
      exact List.drop_left
    obtain ⟨ts, rfl, hts⟩ := ih (hadvance.symm ▸ hrest)
    refine ⟨(p.skipGaps.position, tok) :: ts, rfl, fun limit s t hrun => ?_⟩
    obtain ⟨s', hnext, hdepth, hrun⟩ := ParseState.run_cons_eq_some.mp hrun
    have hread : Token.readAny? s.expected (c :: x' ++ rest) = some (tok, x'.length + 1) := by
      -- a literal ends where a gap or a mark stands, so that no more is read than was spelled
      refine Token.readAny?_eq_some_iff.mpr ⟨ParseState.exists_next_iff.mp ⟨s', hnext⟩, ?_⟩
      exact Token.read?_append hx fun htok =>
        delimited_of_run (ParseState.expected_of_next hnext htok) hrest hrun
    rw [readFrom_step hahead hread hnext hdepth]
    exact hts limit s' t hrun

end Tree

/-! ### Texts and values -/

namespace Located

/-- Reading a text with at most `limit` containers open at a time. -/
def parseWithin (limit : Nat) (t : Text) : Outcome Located := do (← Tree.read limit t).resolve

lemma wellFormed_of_allSpelled {toks : List Token} {t : Text} (h : AllSpelled toks t)
    {l : NumberLiteral} (hl : .number l ∈ toks) : l.WellFormed := by
  induction h with
  | nil => cases hl
  | cons _ head tail ih =>
    rcases List.mem_cons.mp hl with rfl | hl
    · exact head.1
    · exact ih hl

/-- A text that denotes a value is read, as far as the height of the value allows. -/
lemma exists_read {t : Text} {j : Json} (h : t.Denotes j) {limit : Nat}
    (hlimit : j.height ≤ limit) :
    ∃ tree : Tree, Tree.read limit t = .ok tree ∧ tree.json = j ∧ tree.Resolves := by
  obtain ⟨tree, rfl, htokens⟩ := denotes_iff_exists_tree.mp h
  obtain ⟨ts, hts, hread⟩ := Tree.exists_positions (p := .front t) htokens
  obtain ⟨tree', hjson, hrun⟩ := tree.readable limit [] ts (by simpa using hlimit) hts
  refine ⟨tree', hread _ _ _ hrun, hjson, tree'.resolves fun l hl => ?_⟩
  have htokens' := ParseState.tokens_of_run (s := .value []) trivial hrun
  rw [hts] at htokens'
  exact wellFormed_of_allSpelled htokens ((show tree'.tokens = tree.tokens from htokens') ▸ hl)

/-- A text that is read is made of the tokens of the tree. -/
lemma allSpelled_of_read {t : Text} {limit : Nat} {tree : Tree}
    (h : Tree.read limit t = .ok tree) : AllSpelled tree.tokens t := by
  obtain ⟨ts, hts, hrun⟩ := Tree.exists_run_of_readFrom h
  have htokens : tree.tokens = ts.map Prod.snd :=
    ParseState.tokens_of_run (s := .value []) trivial hrun
  exact htokens ▸ hts

/-- A text that is read denotes the value of the tree. -/
lemma denotes_of_read {t : Text} {limit : Nat} {tree : Tree} (h : Tree.read limit t = .ok tree) :
    t.Denotes tree.json :=
  denotes_iff_exists_tree.mpr ⟨tree, rfl, allSpelled_of_read h⟩

/-- A text that denotes a value settles as that value can or cannot be loaded. -/
lemma settles_parseWithin {t : Text} {j : Json} (h : t.Denotes j) {limit : Nat}
    (hlimit : j.height ≤ limit) :
    Settles (parseWithin limit t) (fun l => l.plain = j) j.Loadable := by
  obtain ⟨tree, hread, rfl, hresolves⟩ := exists_read h hlimit
  rw [parseWithin, hread]
  exact hresolves

/-- As many containers as code points are never open. -/
lemma read_eq_read_length {t : Text} {limit : Nat} (h : t.length ≤ limit) :
    Tree.read limit t = Tree.read t.length t := by
  rcases Tree.readFrom_of_le (s := .value []) (p := .front t) h with heq | hrefused
  · exact heq.symm
  · rcases Tree.readFrom_error hrefused with ⟨f, hf, hkind⟩ | ⟨-, hlength⟩
    · cases hf
      cases hkind
    · simp [ParseState.depth, Place.front] at hlength

/-- What is read at some limit is read at the length of the text. -/
lemma read_length_of_read {t : Text} {limit : Nat} {tree : Tree}
    (h : Tree.read limit t = .ok tree) : Tree.read t.length t = .ok tree := by
  rcases Nat.le_total t.length limit with hle | hle
  · rw [← read_eq_read_length hle, h]
  · rcases Tree.readFrom_of_le (s := .value []) (p := .front t) hle with heq | hrefused
    · exact heq.symm.trans h
    · cases h.symm.trans hrefused

lemma settles_length {t : Text} {j : Json} (h : t.Denotes j) :
    Settles (parseWithin t.length t) (fun l => l.plain = j) j.Loadable := by
  have hsettles := settles_parseWithin h (Nat.le_max_left j.height t.length)
  rwa [parseWithin, read_eq_read_length (Nat.le_max_right _ _)] at hsettles

lemma syntaxError_of_not_denotes {t : Text} (h : ¬∃ j, t.Denotes j) :
    ∃ f : Fault, parseWithin t.length t = .error (.fault f) ∧
      f.cause.kind = .authoringSyntaxError := by
  cases hread : Tree.read t.length t with
  | ok tree => exact (h ⟨_, denotes_of_read hread⟩).elim
  | error e =>
    rcases Tree.readFrom_error hread with ⟨f, rfl, hkind⟩ | ⟨-, hlength⟩
    · exact ⟨f, by rw [parseWithin, hread]; rfl, hkind⟩
    · simp [ParseState.depth, Place.front] at hlength

lemma denotes_of_parseWithin {t : Text} {l : Located} (h : parseWithin t.length t = .ok l) :
    t.Denotes l.plain ∧ l.plain.Loadable := by
  by_cases hjson : ∃ j, t.Denotes j
  · obtain ⟨j, hj⟩ := hjson
    rcases settles_length hj with ⟨hloadable, l', hl', rfl⟩ | ⟨-, f, hf, -⟩
    · cases h.symm.trans hl'
      exact ⟨hj, hloadable⟩
    · cases h.symm.trans hf
  · obtain ⟨f, hf, -⟩ := syntaxError_of_not_denotes hjson
    cases h.symm.trans hf

end Located

end Clausal
