import Clausal.Proofs.Json.Lexing
import Clausal.Proofs.Json.Placing

/-!
# Where reading stops

The kinds of tokens that a state expects are those that follow what it has read in some JSON text:
every open container can be closed, so whatever a state takes leads to the end of a text. A text
that is none is therefore read up to the farthest place that a JSON text with the same tokens
reaches, and refused there for what would have gone on.
-/

namespace Clausal

open Token (AllSpelled Lexed)

/-! ### What may follow tokens -/

namespace Token

/-- The tokens of a JSON text, from its front to its end. -/
def Document (toks : List Token) : Prop := ∃ (t : Text) (j : Json), t.Denotes j ∧ Lexed toks t []

/-- In some JSON text the tokens are followed by a token of the kind, or by the end of the text. -/
def Follows (toks : List Token) (k : TokenKind) : Prop :=
  (k = .endOfText ∧ Document toks) ∨
    ∃ tok more, tok.kind = k ∧ Document (toks ++ tok :: more)

/-- A complete token of the kind stands in front of the text, or the text is at its end. -/
def StandsAt (k : TokenKind) (t : Text) : Prop :=
  (k = .endOfText ∧ t = []) ∨ ∃ tok s t', tok.kind = k ∧ t = s ++ t' ∧ Complete tok s t'

/-- Every kind has a token. -/
lemma exists_spelled_of_kind {k : TokenKind} (hk : k ≠ .endOfText) :
    ∃ (tok : Token) (s : Text), tok.kind = k ∧ tok.Spelled s := by
  cases k with
  | endOfText => exact (hk rfl).elim
  | string => exact ⟨.string [], _, rfl, [], [], .nil, .nil, rfl⟩
  | number => exact ⟨.number ⟨Bool.false, [0], none, none⟩, _, rfl, ⟨.zero, nofun, nofun⟩, rfl⟩
  | openBrace => exact ⟨.openBrace, _, rfl, rfl⟩
  | closeBrace => exact ⟨.closeBrace, _, rfl, rfl⟩
  | openBracket => exact ⟨.openBracket, _, rfl, rfl⟩
  | closeBracket => exact ⟨.closeBracket, _, rfl, rfl⟩
  | colon => exact ⟨.colon, _, rfl, rfl⟩
  | comma => exact ⟨.comma, _, rfl, rfl⟩
  | true => exact ⟨.true, _, rfl, rfl⟩
  | false => exact ⟨.false, _, rfl, rfl⟩
  | null => exact ⟨.null, _, rfl, rfl⟩

end Token

/-! ### Completing what was read -/

namespace ParseState

lemma run_mono {limit limit' : Nat} (h : limit ≤ limit') {s s' : ParseState}
    {ts : List (Position × Token)} (hrun : run limit s ts = some s') :
    run limit' s ts = some s' := by
  induction ts generalizing s with
  | nil => exact hrun
  | cons t ts ih =>
    obtain ⟨pos, tok⟩ := t
    obtain ⟨s₁, hnext, hdepth, hrun⟩ := run_cons_eq_some.mp hrun
    exact run_cons_eq_some.mpr ⟨s₁, hnext, hdepth.trans h, ih hrun⟩

/-- Some tokens lead from the state to the end of a text. -/
def Completes (limit : Nat) (s : ParseState) : Prop :=
  ∃ ts t tree, AllSpelled (ts.map Prod.snd) t ∧ run limit s ts = some (done tree)

lemma Completes.of_next {limit : Nat} {s s' : ParseState} (tok : Token) {x : Text}
    (hx : tok.Spelled x) (hnext : s.next .start tok = some s') (hdepth : s'.depth ≤ limit)
    (h : s'.Completes limit) : s.Completes limit := by
  obtain ⟨ts, t, tree, ht, hrun⟩ := h
  exact ⟨(.start, tok) :: ts, _, tree, .cons (w := []) nofun hx ht,
    run_cons_eq_some.mpr ⟨s', hnext, hdepth, hrun⟩⟩

/-- Behind a value the open containers can be closed. -/
lemma completes_afterValue {limit : Nat} (t : Tree) {stack : List Frame}
    (h : stack.length ≤ limit) : (afterValue t stack).Completes limit := by
  induction stack generalizing t with
  | nil => exact ⟨[], [], t, .nil nofun, rfl⟩
  | cons f stack ih =>
    have hstack : stack.length ≤ limit := (Nat.le_succ _).trans h
    cases f with
    | array start items =>
      refine .of_next .closeBracket rfl rfl ?_ (ih _ hstack)
      rwa [depth_afterValue]
    | object start members key =>
      refine .of_next .closeBrace rfl rfl ?_ (ih _ hstack)
      rwa [depth_afterValue]

lemma completes_value {limit : Nat} {stack : List Frame} (h : stack.length ≤ limit) :
    (value stack).Completes limit := by
  refine .of_next .null rfl rfl ?_ (completes_afterValue _ h)
  rwa [depth_afterValue]

lemma completes_afterKey {limit : Nat} {start : Position} {members : List (Key × Tree)} {key : Key}
    {stack : List Frame} (h : stack.length + 1 ≤ limit) :
    (afterKey start members key stack).Completes limit :=
  .of_next .colon rfl rfl h (completes_value h)

/-- Every state can be completed without opening more containers. -/
lemma completes {limit : Nat} (s : ParseState) (h : s.depth ≤ limit) : s.Completes limit := by
  -- every state can be brought to the end: a container is closed, a name gets a value
  cases s with
  | value stack => exact completes_value h
  | done t => exact ⟨[], [], t, .nil nofun, rfl⟩
  | afterKey start members key stack => exact completes_afterKey h
  | nextMember start members stack =>
    obtain ⟨tok, x, hkind, hx⟩ := Token.exists_spelled_of_kind (k := .string) nofun
    cases tok with
    | string k => exact .of_next _ hx rfl h (completes_afterKey h)
    | _ => cases hkind
  | firstItem start stack =>
    have hstack : stack.length ≤ limit := (Nat.le_succ _).trans h
    refine .of_next .closeBracket rfl rfl ?_ (completes_afterValue _ hstack)
    rwa [depth_afterValue]
  | afterItem start items stack =>
    have hstack : stack.length ≤ limit := (Nat.le_succ _).trans h
    refine .of_next .closeBracket rfl rfl ?_ (completes_afterValue _ hstack)
    rwa [depth_afterValue]
  | firstMember start stack =>
    have hstack : stack.length ≤ limit := (Nat.le_succ _).trans h
    refine .of_next .closeBrace rfl rfl ?_ (completes_afterValue _ hstack)
    rwa [depth_afterValue]
  | afterMember start members stack =>
    have hstack : stack.length ≤ limit := (Nat.le_succ _).trans h
    refine .of_next .closeBrace rfl rfl ?_ (completes_afterValue _ hstack)
    rwa [depth_afterValue]

lemma exists_done_of_endOfText {s : ParseState} (h : .endOfText ∈ s.expected) :
    ∃ t, s = done t := by
  cases s with
  | done t => exact ⟨t, rfl⟩
  | _ => simp [expected, valueKinds] at h

lemma exists_mem_expected (s : ParseState) : ∃ k, k ∈ s.expected := by
  cases s <;> simp [expected, valueKinds]

/-- Kinds that are expected together have different names. -/
lemma nodup_names_expected (s : ParseState) : (s.expected.map TokenKind.name).Nodup := by
  cases s <;> simp [expected, valueKinds, TokenKind.name]

end ParseState

/-! ### What a state expects -/

namespace Token

open ParseState

lemma document_of_run {limit : Nat} {ts : List (Position × Token)} {b : Text} {tree : Tree}
    (hb : AllSpelled (ts.map Prod.snd) b) (hrun : run limit (value []) ts = some (done tree)) :
    Document (ts.map Prod.snd) := by
  have htokens : tree.tokens = ts.map Prod.snd := tokens_of_run (s := .value []) trivial hrun
  exact ⟨b, tree.json, denotes_iff_exists_tree.mpr ⟨tree, rfl, htokens ▸ hb⟩, lexed_of_run hb hrun⟩

/-- The tokens of a JSON text are read to the end, wherever they are thought to stand. -/
lemma Document.exists_run {ts : List (Position × Token)} (h : Document (ts.map Prod.snd)) :
    ∃ limit tree, run limit (value []) ts = some (done tree) := by
  obtain ⟨t, j, hj, hlexed⟩ := h
  obtain ⟨tree, rfl, htokens⟩ := denotes_iff_exists_tree.mp hj
  -- reading depends on the tokens alone, wherever they stand
  have hread (us : List (Position × Token)) (hus : us.map Prod.snd = tree.tokens) :
      ∃ tree', run tree.json.height (value []) us = some (done tree') := by
    obtain ⟨tree', -, hrun⟩ := tree.readable tree.json.height [] us (by simp) hus
    exact ⟨tree', hrun⟩
  have hplain : (tree.tokens.map fun tok => (Position.start, tok)).map Prod.snd = tree.tokens := by
    simp [Function.comp_def]
  obtain ⟨tree', hrun⟩ := hread _ hplain
  have hlexed' := lexed_of_run (hplain.symm ▸ htokens) hrun
  obtain ⟨tree', hrun⟩ := hread ts (hlexed.unique (hplain ▸ hlexed'))
  exact ⟨_, tree', hrun⟩

lemma eq_of_runs {limit limit' : Nat} {s s₁ s₂ : ParseState} {ts : List (Position × Token)}
    (h₁ : run limit s ts = some s₁) (h₂ : run limit' s ts = some s₂) : s₁ = s₂ := by
  have h₁ := run_mono (Nat.le_max_left limit limit') h₁
  have h₂ := run_mono (Nat.le_max_right limit limit') h₂
  exact Option.some.inj (h₁.symm.trans h₂)

/-- A state expects what may follow the tokens that it has read. -/
lemma follows_iff {limit : Nat} {s : ParseState} {ts : List (Position × Token)} {b : Text}
    (hrun : run limit (value []) ts = some s) (hb : AllSpelled (ts.map Prod.snd) b)
    {k : TokenKind} : Follows (ts.map Prod.snd) k ↔ k ∈ s.expected := by
  constructor
  -- from left to right the run of the whole document passes through the state reached so far
  · rintro (⟨rfl, hdoc⟩ | ⟨tok, more, rfl, hdoc⟩)
    · obtain ⟨limit', tree, hrun'⟩ := hdoc.exists_run
      obtain rfl := eq_of_runs hrun hrun'
      exact List.mem_singleton_self _
    · let us : List (Position × Token) := more.map fun tok => (.start, tok)
      have hts : (ts ++ (.start, tok) :: us).map Prod.snd = ts.map Prod.snd ++ tok :: more := by
        simp [us, Function.comp_def]
      rw [← hts] at hdoc
      obtain ⟨limit', tree, hrun'⟩ := hdoc.exists_run
      obtain ⟨s₁, hrun₁, hmore⟩ := run_append_eq_some.mp hrun'
      obtain rfl := eq_of_runs hrun hrun₁
      obtain ⟨s', hnext, -⟩ := run_cons_eq_some.mp hmore
      exact exists_next_iff.mp ⟨s', hnext⟩
  · intro hk
    -- either the document may end here, or any token of the kind can be read on
    by_cases hend : k = .endOfText
    · subst hend
      obtain ⟨tree, rfl⟩ := exists_done_of_endOfText hk
      exact .inl ⟨rfl, document_of_run hb hrun⟩
    · obtain ⟨tok, x, rfl, hx⟩ := exists_spelled_of_kind hend
      obtain ⟨s', hnext⟩ : ∃ s', s.next .start tok = some s' := exists_next_iff.mpr hk
      have hle := Nat.le_max_right limit s'.depth
      obtain ⟨us, t, tree, ht, hrest⟩ := s'.completes hle
      have hrun' : run (max limit s'.depth) (value []) (ts ++ (.start, tok) :: us) =
          some (done tree) :=
        run_append_eq_some.mpr ⟨s, run_mono (Nat.le_max_left _ _) hrun,
          run_cons_eq_some.mpr ⟨s', hnext, hle, hrest⟩⟩
      have hspelled :
          AllSpelled ((ts ++ (.start, tok) :: us).map Prod.snd) (b ++ ([] ++ (x ++ t))) := by
        rw [List.map_append]
        exact hb.append (.cons nofun hx ht)
      refine .inr ⟨tok, us.map Prod.snd, rfl, ?_⟩
      have := document_of_run hspelled hrun'
      rwa [List.map_append] at this

/-- Where no token of an expected kind is read, none stands. -/
lemma not_standsAt {s : ParseState} {t : Text} (hdone : ∀ tree, s = done tree → t ≠ [])
    (hread : ∀ tok n, readAny? s.expected t ≠ some (tok, n + 1)) {k : TokenKind}
    (hk : k ∈ s.expected) : ¬StandsAt k t := by
  rintro (⟨rfl, rfl⟩ | ⟨tok, x, t', rfl, rfl, hcomplete⟩)
  · obtain ⟨tree, rfl⟩ := exists_done_of_endOfText hk
    exact hdone tree rfl rfl
  · obtain ⟨n, hn⟩ := Nat.exists_eq_succ_of_ne_zero
      (List.length_pos_of_ne_nil hcomplete.ne_nil).ne'
    refine hread tok n (readAny?_eq_some_iff.mpr ⟨hk, ?_⟩)
    rw [complete_iff.mp hcomplete, hn]

end Token

/-! ### The place where reading stops -/

namespace Place

/-- What follows the white space does not start with more of it. -/
lemma exists_skipGaps_between {p : Place} {b t r : Text} (hp : p = .between b t)
    (hr : p.skipGaps.ahead = r) :
    ∃ w, t = w ++ r ∧ w.Gap ∧ r.GapFree ∧ p.skipGaps = .between (b ++ w) r := by
  subst hp
  have hdrop : t.dropWhile CodePoint.isGap = r := (skipGaps_ahead _).symm.trans hr
  have ht : t.takeWhile CodePoint.isGap ++ r = t := hdrop ▸ List.takeWhile_append_dropWhile
  refine ⟨t.takeWhile CodePoint.isGap, ht.symm, ?_, fun c r' hc hgap => ?_, ?_⟩
  · exact Text.gap_iff.mpr fun c hc => List.mem_takeWhile_imp hc
  · have hhead := List.head?_dropWhile_not CodePoint.isGap t
    rw [hdrop, hc] at hhead
    have := Text.gap_iff.mp hgap c List.mem_cons_self
    simp [this] at hhead
  · have := advance_between b (t.takeWhile CodePoint.isGap) r
    rwa [ht] at this

end Place

namespace Text

/-- How many brackets and braces are opened in a text. -/
def openings (t : Text) : Nat := t.count (.scalar '[') + t.count (.scalar '\x7b')

lemma openings_append (s t : Text) : (s ++ t).openings = s.openings + t.openings := by
  simp only [openings, List.count_append]
  omega

end Text

namespace ParseState

lemma depth_of_startValue_of_spelled {stack : List Frame} {pos : Position} {tok : Token}
    {s : ParseState} {x : Text} (hx : tok.Spelled x) (h : startValue stack pos tok = some s) :
    s.depth ≤ stack.length + x.openings := by
  rcases startValue_cases h with ⟨rfl, rfl⟩ | ⟨rfl, rfl⟩ | ⟨t, -, rfl⟩
  · cases hx
    exact Nat.le_refl _
  · cases hx
    exact Nat.le_refl _
  · rw [depth_afterValue]
    exact Nat.le_add_right _ _

/-- A step opens a container only for a bracket or a brace. -/
lemma depth_of_next_of_spelled {s s' : ParseState} {pos : Position} {tok : Token} {x : Text}
    (hx : tok.Spelled x) (h : s.next pos tok = some s') : s'.depth ≤ s.depth + x.openings := by
  cases next_cases h with
  | value h | firstItem h => exact depth_of_startValue_of_spelled hx h
  | emptyArray | array | emptyObject | object =>
    rw [depth_afterValue, depth]
    omega
  | itemComma | memberComma | firstName | nextName | colon => exact Nat.le_add_right _ _

end ParseState

namespace Tree

/-- Reading that fails stopped behind complete tokens, where none of the kinds stands that the state
behind them expects; or too many containers are open. -/
lemma exists_stop_of_readFrom {limit : Nat} {s : ParseState} {p : Place} {e : Failure}
    (h : readFrom limit s p = .error e) {b t : Text} (hp : p = .between b t) :
    (∃ ts s' x r, t = x ++ r ∧ Lexed (ts.map Prod.snd) x r ∧ r.GapFree ∧
      s.run limit ts = some s' ∧ (∀ k ∈ s'.expected, ¬Token.StandsAt k r) ∧
      e = Place.unexpected (.between (b ++ x) r) s'.expected) ∨
    (e = .fault ⟨.nestingTooDeepToRead, [], none⟩ ∧ limit < s.depth + t.openings) := by
  -- along the reading: it stops at a token that does not continue, at one too many containers, or
  -- at the end
  fun_induction readFrom limit s p generalizing b t with
  | case1 => cases h
  | case2 p q hq s hdone =>
    cases h
    obtain ⟨w, rfl, hw, hr, hskip⟩ := Place.exists_skipGaps_between hp hq
    refine .inl ⟨[], s, w, [], rfl, .nil hw, hr, rfl, fun k hk => ?_, by rw [← hskip]⟩
    exact Token.not_standsAt (fun tree h _ => hdone tree h) (fun tok n => Token.readAny?_nil) hk
  | case3 s p q c rest hq tok n hread s' hnext hdepth =>
    cases h
    obtain ⟨w, rfl, -⟩ := Place.exists_skipGaps_between hp hq
    obtain ⟨-, x, rest', hrest, -, hx⟩ :=
      Token.spelled_of_read? (Token.readAny?_eq_some_iff.mp hread).2
    -- the token opened a container beyond the limit
    have := ParseState.depth_of_next_of_spelled hx hnext
    rw [hrest, Text.openings_append, Text.openings_append]
    exact .inr ⟨rfl, by omega⟩
  -- a token was read on, so the rest of the text stops where this one does
  | case4 s p q c rest hq tok n hread s' hnext hdepth ih =>
    obtain ⟨w, rfl, hw, -, hskip⟩ := Place.exists_skipGaps_between hp hq
    have hread' := (Token.readAny?_eq_some_iff.mp hread).2
    obtain ⟨-, x, rest', hrest, hlength, hx⟩ := Token.spelled_of_read? hread'
    have hcomplete : tok.Complete x rest' :=
      Token.complete_iff.mpr (by rw [← hrest, hread', hlength])
    have hadvance : q.advance (n + 1) = .between (b ++ w ++ x) rest' := by
      rw [show q = _ from hskip, hrest, ← Nat.succ_eq_add_one, ← hlength, Place.advance_between]
    rw [hrest]
    rcases ih h hadvance with ⟨ts, s'', y, r, rfl, hy, hr, hrun, hstuck, he⟩ | ⟨he, hlimit⟩
    · refine .inl ⟨(q.position, tok) :: ts, s'', w ++ (x ++ y), r, by simp,
        .cons hw hcomplete hy, hr, ?_, hstuck, ?_⟩
      · exact ParseState.run_cons_eq_some.mpr ⟨s', hnext, Nat.not_lt.mp hdepth, hrun⟩
      · simpa using he
    · have := ParseState.depth_of_next_of_spelled hx hnext
      rw [Text.openings_append, Text.openings_append]
      exact .inr ⟨he, by omega⟩
  | case5 s p q c rest hq tok n hread hnext =>
    have hkind := (Token.readAny?_eq_some_iff.mp hread).1
    obtain ⟨s', hs'⟩ : ∃ s', s.next q.position tok = some s' :=
      ParseState.exists_next_iff.mpr hkind
    cases hnext.symm.trans hs'
  | case6 s p q c rest hq hread =>
    cases h
    obtain ⟨w, rfl, hw, hr, hskip⟩ := Place.exists_skipGaps_between hp hq
    refine .inl ⟨[], s, w, _, rfl, .nil hw, hr, rfl, fun k hk => ?_, by rw [← hskip]⟩
    exact Token.not_standsAt (fun tree _ h => by cases h) (fun tok n => hread tok n) hk

end Tree

/-! ### Syntax errors -/

/-- A text is cut where it stops being the front of a JSON text. Before the cut stand white space
and complete tokens that start some JSON text, and behind it nothing that could follow these. No
other cut behind such tokens is farther. -/
structure Text.StopsAt (t : Text) (toks : List Token) (before ahead : Text) : Prop where
  split : t = before ++ ahead
  lexed : Lexed toks before ahead
  gapFree : ahead.GapFree
  viable : ∃ more, Token.Document (toks ++ more)
  stuck : ∀ k, Token.Follows toks k → ¬Token.StandsAt k ahead
  farthest : ∀ toks' before' ahead', t = before' ++ ahead' → Lexed toks' before' ahead' →
    (∃ more, Token.Document (toks' ++ more)) → before' <+: before

lemma Token.Follows.exists_document {toks : List Token} {k : TokenKind} (h : Follows toks k) :
    ∃ more, Document (toks ++ more) := by
  rcases h with ⟨-, h⟩ | ⟨tok, more, -, h⟩
  · exact ⟨[], by rwa [List.append_nil]⟩
  · exact ⟨tok :: more, h⟩

lemma Text.StopsAt.of_stuck {t : Text} {toks : List Token} {before ahead : Text}
    (split : t = before ++ ahead) (lexed : Lexed toks before ahead) (gapFree : ahead.GapFree)
    (viable : ∃ k, Token.Follows toks k)
    (stuck : ∀ k, Token.Follows toks k → ¬Token.StandsAt k ahead) :
    t.StopsAt toks before ahead := by
  obtain ⟨k, hk⟩ := viable
  refine ⟨split, lexed, gapFree, hk.exists_document, stuck, ?_⟩
  rintro toks' before' ahead' hsplit hlexed ⟨more, hdoc⟩
  rcases lexed.prefix_or hlexed gapFree (split.symm.trans hsplit) with
    ⟨-, hbefore⟩ | ⟨tok, more', s, r, rfl, rfl, hcomplete⟩
  · exact hbefore
  · rw [List.append_assoc] at hdoc
    exact (stuck tok.kind (.inr ⟨tok, more' ++ more, rfl, hdoc⟩)
      (.inr ⟨tok, s, r, rfl, rfl, hcomplete⟩)).elim

namespace Located

lemma not_denotes_of_syntaxError {t : Text} {f : Fault}
    (h : parseWithin t.length t = .error (.fault f)) (hf : f.cause.kind = .authoringSyntaxError) :
    ¬∃ j, t.Denotes j := by
  rintro ⟨j, hj⟩
  rcases settles_length hj with ⟨-, l, hl, -⟩ | ⟨-, f', hf', hkind⟩
  · cases h.symm.trans hl
  · cases h.symm.trans hf'
    rw [hf] at hkind
    rcases hkind with hkind | hkind <;> cases hkind

lemma exists_stop_of_read {t : Text} {limit : Nat} {e : Failure}
    (h : Tree.read limit t = .error e) :
    (∃ toks before ahead, ∃ s : ParseState, t.StopsAt toks before ahead ∧
      (∀ k, k ∈ s.expected ↔ Token.Follows toks k) ∧
      e = Place.unexpected (.between before ahead) s.expected) ∨
    (e = .fault ⟨.nestingTooDeepToRead, [], none⟩ ∧ limit < t.openings) := by
  have hfront : Place.front t = .between [] t := rfl
  rcases Tree.exists_stop_of_readFrom h hfront with
    ⟨ts, s, before, ahead, rfl, hlexed, hgap, hrun, hstuck, he⟩ | ⟨he, hlimit⟩
  · have hfollows (k : TokenKind) : k ∈ s.expected ↔ Token.Follows (ts.map Prod.snd) k :=
      (Token.follows_iff hrun hlexed.allSpelled).symm
    obtain ⟨k, hk⟩ := s.exists_mem_expected
    exact .inl ⟨_, before, ahead, s, .of_stuck rfl hlexed hgap ⟨k, (hfollows k).mp hk⟩
      fun k hk => hstuck k ((hfollows k).mpr hk), hfollows, he⟩
  · exact .inr ⟨he, by simpa [ParseState.depth] using hlimit⟩

lemma lt_openings_of_refused {t : Text} {limit : Nat}
    (h : Tree.read limit t = refuse .nestingTooDeepToRead) : limit < t.openings := by
  rcases exists_stop_of_read h with ⟨_, _, _, _, -, -, he⟩ | ⟨-, hlimit⟩
  · cases he
  · exact hlimit

/-- With room for all openings of a text the limit on open containers makes no difference. -/
lemma read_length_eq_read_openings (t : Text) :
    Tree.read t.length t = Tree.read t.openings t := by
  rcases Nat.le_total t.length t.openings with hle | hle
  · exact (read_eq_read_length hle).symm
  · rcases Tree.readFrom_of_le (s := .value []) (p := .front t) hle with heq | hrefused
    · exact heq.symm
    · exact (Nat.lt_irrefl _ (lt_openings_of_refused hrefused)).elim

/-- A text that is no JSON text is refused as a syntax error where it stops being the front of one:
at the line and the column of the farthest place that is reached by white space and complete tokens
with which some JSON text starts, none of whose possible next tokens stands there. The message lists
the names of the kinds of exactly these tokens, the end of the text among them, each name once. Only
where a text opens more containers than a parser has room for may it give up instead. -/
theorem parse_stops_farthest (parser : Parser) {t : Text} (h : ¬∃ j, t.Denotes j) :
    ∃ toks before ahead, t.StopsAt toks before ahead ∧
      ∃ (kinds : List TokenKind) (p : Position) (f : Fault),
        (∀ k, k ∈ kinds ↔ Token.Follows toks k) ∧ (kinds.map TokenKind.name).Nodup ∧
        p = ⟨before.count (.scalar '\n') + 1,
          (before.reverse.takeWhile (· ≠ .scalar '\n')).length + 1⟩ ∧
        f = ⟨.unexpectedText kinds p (before.reverse.take 10).reverse (ahead.take 10), [], some p⟩ ∧
        f.cause.kind = .authoringSyntaxError ∧
        Text.ofString ("malformed authoring document: Expected " ++
          String.intercalate " or " (kinds.map TokenKind.name) ++ " at position (") <+:
            f.cause.message ∧
        (parse parser t = .error (.fault f) ∨
          (parse parser t = .error (.misuse .callsTooDeep) ∧ parser.levels < t.openings)) := by
  -- with room for every bracket of the text no reading is refused for its depth
  cases hread : Tree.read t.openings t with
  | ok tree => exact (h ⟨_, denotes_of_read hread⟩).elim
  | error e =>
    -- what follows a prefix is what is expected in the state it leads to
    rcases exists_stop_of_read hread with
      ⟨toks, before, ahead, s, hstop, hfollows, rfl⟩ | ⟨-, hlimit⟩
    · refine ⟨toks, before, ahead, hstop, s.expected, _, _, hfollows, s.nodup_names_expected, rfl,
        rfl, rfl, ?_, ?_⟩
      · simp only [Cause.message, Text.ofString, String.toList_append, Text.ofChars_append,
          List.append_assoc, List.prefix_append_right_inj]
        exact List.prefix_append _ _
      · rcases parse_eq_or_gives_up parser t with hparse | ⟨hparse, hrefused⟩
        · left
          rw [hparse, parseWithin, read_length_eq_read_openings, hread]
          rfl
        · exact .inr ⟨hparse, lt_openings_of_refused hrefused⟩
    · exact (Nat.lt_irrefl _ hlimit).elim

/-- Between the second item and a third one a comma is missing: only a comma or a closing bracket
could stand in the fifth column of the second line. -/
theorem parse_stops_farthest_missingComma :
    let t := Text.ofChars ['[', 't', 'r', 'u', 'e', ',', '\n', '\x22', 'k', '\x22', ' ', '1', ']']
    (¬∃ j, t.Denotes j) ∧ ∃ toks before ahead, t.StopsAt toks before ahead ∧
      (∀ k, Token.Follows toks k ↔ k = .comma ∨ k = .closeBracket) ∧
      ∃ f : Fault, parse .standard t = .error (.fault f) ∧ f.position = some ⟨2, 5⟩ ∧
        f.cause.message = Text.ofString ("malformed authoring document: Expected ',' or ']'" ++
          " at position (2, 5) => 'true, \x22k\x22 *1]'.") := by
  intro t
  let f : Fault := ⟨.unexpectedText [.comma, .closeBracket] ⟨2, 5⟩
    (Text.ofChars ['t', 'r', 'u', 'e', ',', '\n', '\x22', 'k', '\x22', ' '])
    (Text.ofChars ['1', ']']), [], some ⟨2, 5⟩⟩
  have hparse : parse .standard t = .error (.fault f) := by
    have hmap : (parse .standard t).map (fun _ => ()) = .error (.fault f) := by decide +kernel
    cases h : parse .standard t with
    | error e =>
      rw [h] at hmap
      exact congrArg Except.error (Except.error.inj hmap)
    | ok l =>
      rw [h] at hmap
      cases hmap
  have hlength : parse .standard t = parseWithin t.length t :=
    parse_eq_of_answers (by simp [hparse])
  have ht : ¬∃ j, t.Denotes j := not_denotes_of_syntaxError (hlength.symm.trans hparse) rfl
  obtain ⟨toks, before, ahead, hstop, kinds, p, f', hkinds, -, -, hf', -, -, hanswer⟩ :=
    parse_stops_farthest .standard ht
  have hf : f' = f := by
    rcases hanswer with h | ⟨h, -⟩
    · exact Failure.fault.inj (Except.error.inj (h.symm.trans hparse))
    · cases h.symm.trans hparse
  rw [hf] at hf'
  obtain rfl : [.comma, .closeBracket] = kinds := congrArg (fun f => match f.cause with
    | .unexpectedText kinds _ _ _ => kinds
    | _ => []) hf'
  refine ⟨ht, toks, before, ahead, hstop, fun k => ?_, f, hparse, rfl, ?_⟩
  · rw [← hkinds]
    simp
  · decide +kernel

end Located

end Clausal
