import Clausal.Json.Parser
import Clausal.Proofs.Json.Reading
import Mathlib.Data.List.Induction

/-!
# Matching and reading token by token

Matching a text against the grammar goes back wherever an alternative or a repetition fails, while
reading token by token never goes back. Both come to the same: at every place the first token tells
which alternative can match, so what is tried after a failure fails nearer to the front and leaves
the record of the farthest failure as it is. The record is then the list of what reading expected
where it stopped.
-/

namespace Clausal

open Peg (Expr Missed ParseNode Result State matchAll matchFirst matchOften)

/-! ### Positions by line ends -/

namespace Text

lemma lineEnds_concat (b : Text) (c : CodePoint) : lineEnds (b ++ [c]) =
    b.lineEnds ++ if c = .scalar '\n' then [b.length] else [] := by
  by_cases hc : c = .scalar '\n' <;> simp [lineEnds, List.zipIdx_append, hc]

lemma lt_of_mem_lineEnds {b : Text} {o : Nat} (h : o ∈ b.lineEnds) : o < b.length := by
  simp only [lineEnds, List.mem_map, List.mem_filter] at h
  obtain ⟨⟨c, i⟩, ⟨hi, -⟩, rfl⟩ := h
  exact (List.mem_zipIdx' hi).1

lemma lineEnds_append (b r : Text) : lineEnds (b ++ r) =
    b.lineEnds ++ r.lineEnds.map (· + b.length) := by
  induction r using List.reverseRecOn with
  | nil => simp [lineEnds]
  | append_singleton r c ih =>
    rw [← List.append_assoc, lineEnds_concat, lineEnds_concat, ih]
    split <;> simp [Nat.add_comm]

end Text

/-- A table of the line ends counts line feeds and what follows the last of them. -/
lemma Position.ofOffset_lineEnds (b r : Text) :
    ofOffset (b ++ r).lineEnds b.length = b.endPosition := by
  -- the line ends before the offset are those of the text in front of it
  have hbefore : (b ++ r).lineEnds.takeWhile (· < b.length) = b.lineEnds := by
    rw [Text.lineEnds_append, List.takeWhile_append_of_pos]
    · cases r.lineEnds <;> simp
    · exact fun o ho => decide_eq_true (Text.lt_of_mem_lineEnds ho)
  rw [ofOffset, hbefore]
  clear hbefore
  -- from the end of that text, where the position of the next code point is known
  induction b using List.reverseRecOn with
  | nil => rfl
  | append_singleton b c ih =>
    rw [Text.endPosition_concat, ← ih, Text.lineEnds_concat]
    by_cases hc : c = .scalar '\n'
    · cases h : (Text.lineEnds b).getLast? with
      | none => simp [hc, next, List.getLast?_eq_none_iff.mp h]
      | some o => simp [hc, next]
    · cases h : (Text.lineEnds b).getLast? with
      | none => simp [hc, h, next]
      | some o =>
        have := Text.lt_of_mem_lineEnds (List.mem_of_getLast? h)
        simp [hc, h, next]
        omega

/-- The position of each offset of a text, by the table of its line ends. -/
def Text.place (t : Text) : Nat → Position := .ofOffset t.lineEnds

lemma Text.place_length {t b r : Text} (ht : t = b ++ r) : t.place b.length = b.endPosition := by
  rw [ht]
  exact Position.ofOffset_lineEnds b r

/-! ### Tokens at the front of a text -/

namespace Text

/-- The white space at the front of a text. -/
def leading (r : Text) : Text := r.takeWhile CodePoint.isGap

/-- A text without the white space at its front. -/
def trimmed (r : Text) : Text := r.dropWhile CodePoint.isGap

lemma leading_append_trimmed (r : Text) : r.leading ++ r.trimmed = r :=
  List.takeWhile_append_dropWhile

/-- The next token stands behind the white space. -/
lemma place_leading {t b r : Text} (ht : t = b ++ r) :
    t.place (b ++ r.leading).length = (b ++ r.leading).endPosition :=
  place_length (r := r.trimmed) (by rw [ht, List.append_assoc, r.leading_append_trimmed])

end Text

namespace TokenKind

/-- A token of the kind stands at the front of a text, or the text has ended as it says. -/
def Matches (k : TokenKind) (r : Text) : Prop := (k.length? r).isSome

lemma length?_of_ne {k : TokenKind} (hk : k ≠ .endOfText) (r : Text) :
    k.length? r = (Token.read? k r).map Prod.snd := if_neg hk

lemma matches_endOfText_iff {r : Text} : endOfText.Matches r ↔ r = [] := by
  cases r <;> simp [Matches, length?]

lemma Matches.exists_read {k : TokenKind} {r : Text} (h : k.Matches r) (hk : k ≠ .endOfText) :
    ∃ tok n, Token.read? k r = some (tok, n) := by
  rw [Matches, length?_of_ne hk, Option.isSome_map, Option.isSome_iff_exists] at h
  obtain ⟨⟨tok, n⟩, h⟩ := h
  exact ⟨tok, n, h⟩

lemma matches_of_read {tok : Token} {n : Nat} {r : Text}
    (h : Token.read? tok.kind r = some (tok, n)) : tok.kind.Matches r := by
  rw [Matches, length?_of_ne (by cases tok <;> simp [Token.kind]), h]
  rfl

/-- The first code point tells the kind. -/
lemma Matches.eq {k k' : TokenKind} {r : Text} (h : k.Matches r) (h' : k'.Matches r) : k = k' := by
  -- the two ends: only the end of a text matches nothing, and else the first code point decides
  have hnil {k : TokenKind} (h : k.Matches []) : k = .endOfText := by
    by_contra hk
    obtain ⟨tok, n, hread⟩ := h.exists_read hk
    obtain ⟨-, s, rest, hs, -, hspelled⟩ := Token.spelled_of_read? hread
    obtain ⟨c, s, rfl, -⟩ := hspelled.exists_cons
    cases hs
  cases r with
  | nil => rw [hnil h, hnil h']
  | cons c r =>
    have hcons {k : TokenKind} (h : k.Matches (c :: r)) : Token.kindAt? c = some k := by
      by_cases hk : k = .endOfText
      · cases matches_endOfText_iff.mp (hk ▸ h)
      · obtain ⟨tok, n, hread⟩ := h.exists_read hk
        obtain ⟨rfl, s, rest, hs, -, hspelled⟩ := Token.spelled_of_read? hread
        obtain ⟨c', s, rfl, hc⟩ := hspelled.exists_cons
        rw [(List.cons.inj hs).1]
        exact hc
    exact Option.some.inj ((hcons h).symm.trans (hcons h'))

end TokenKind

/-! ### Steps of reading -/

lemma ParseState.nodup_expected (s : ParseState) : s.expected.Nodup := by
  cases s <;> simp [expected, valueKinds]

lemma ParseState.expected_ne_nil (s : ParseState) : s.expected ≠ [] := by
  cases s <;> simp [expected, valueKinds]

/-- Nothing is erased where nothing is repeated. -/
lemma eraseDups_eq_self {kinds : List TokenKind} (h : kinds.Nodup) : kinds.eraseDups = kinds := by
  induction kinds with
  | nil => rfl
  | cons k kinds ih =>
    obtain ⟨hk, hkinds⟩ := List.nodup_cons.mp h
    rw [List.eraseDups_cons, List.filter_eq_self.mpr, ih hkinds]
    intro k' hk'
    simpa using fun heq : k' = k => hk (heq ▸ hk')

namespace Tree

variable {t b r : Text} {limit : Nat} {s s' : ParseState}

/-- What is expected is missing at the next token. -/
lemma unexpected_between (ht : t = b ++ r) {kinds : List TokenKind} (hkinds : kinds.Nodup) :
    Place.unexpected (.between b r) kinds =
      t.unmatched t.place ⟨b.length, kinds⟩ := by
  subst ht
  have hbefore : (b.reverse.take 10).reverse = b.drop (b.length - 10) := by
    rw [List.take_reverse, List.reverse_reverse]
  simp [Place.unexpected, Text.unmatched, Place.between, Text.place_length rfl, hbefore,
    eraseDups_eq_self hkinds]

/-- Where none of the expected kinds matches reading stops. -/
lemma readFrom_unmatched (ht : t = b ++ r) (h : ∀ k ∈ s.expected, ¬k.Matches r.trimmed) :
    readFrom limit s (.between b r) = .error (t.unmatched t.place
      ⟨(b ++ r.leading).length, s.expected⟩) := by
  have hskip : (Place.between b r).skipGaps = .between (b ++ r.leading) r.trimmed :=
    Place.skipGaps_between b r
  rw [readFrom_stuck, hskip, unexpected_between]
  · rw [ht, List.append_assoc, r.leading_append_trimmed]
  · exact s.nodup_expected
  · rintro tree rfl hnil
    rw [hskip] at hnil
    exact h .endOfText (by simp [ParseState.expected]) (TokenKind.matches_endOfText_iff.mpr hnil)
  · intro tok n s' hread hnext
    rw [hskip] at hread
    obtain ⟨hk, hread⟩ := Token.readAny?_eq_some_iff.mp hread
    exact h _ hk (TokenKind.matches_of_read hread)

/-- A token that is expected leads on, unless too many containers are open then. -/
lemma readFrom_token {tok : Token} {n : Nat}
    (hread : Token.read? tok.kind r.trimmed = some (tok, n))
    (hnext : s.next (b ++ r.leading).endPosition tok = some s') :
    readFrom limit s (.between b r) = refuse .nestingTooDeepToRead ∨
      s'.depth ≤ limit ∧ ∃ x, r.trimmed = x ++ r.trimmed.drop n ∧ x.length = n ∧ x ≠ [] ∧
        Token.read? tok.kind x = some (tok, n) ∧
        readFrom limit s (.between b r) =
          readFrom limit s' (.between (b ++ (r.leading ++ x)) (r.trimmed.drop n)) := by
  have hskip : (Place.between b r).skipGaps = .between (b ++ r.leading) r.trimmed :=
    Place.skipGaps_between b r
  obtain ⟨-, x, rest, hx, hlength, hspelled⟩ := Token.spelled_of_read? hread
  obtain ⟨c, x', rfl, -⟩ := hspelled.exists_cons
  obtain rfl : x'.length + 1 = n := hlength
  have hdrop : r.trimmed.drop (x'.length + 1) = rest := by
    rw [hx]
    exact List.drop_left
  have hahead : (Place.between b r).skipGaps.ahead = c :: (x' ++ rest) := by rw [hskip, hx]; rfl
  have hnext' : s.next (Place.between b r).skipGaps.position tok = some s' := by rwa [hskip]
  have hexpected : Token.readAny? s.expected (c :: (x' ++ rest)) = some (tok, x'.length + 1) :=
    Token.readAny?_eq_some_iff.mpr ⟨ParseState.exists_next_iff.mp ⟨s', hnext⟩, by
      rwa [hx, List.cons_append] at hread⟩
  -- the limit is checked on the way down, before anything else of the token is looked at
  rcases Nat.lt_or_ge limit s'.depth with hdeep | hdepth
  · exact .inl (readFrom_refused hahead hexpected hnext' hdeep)
  · have hadvance : (Place.between (b ++ r.leading) r.trimmed).advance (x'.length + 1) =
        .between (b ++ (r.leading ++ c :: x')) rest := by
      rw [hx, ← List.length_cons, Place.advance_between, List.append_assoc]
    have halone : Token.read? tok.kind (c :: x') = some (tok, x'.length + 1) := by
      have := Token.read?_append (t := []) hspelled fun _ _ _ h => by cases h
      rwa [List.append_nil] at this
    refine .inr ⟨hdepth, c :: x', by rw [hdrop, hx], rfl, List.cons_ne_nil _ _, halone, ?_⟩
    rw [readFrom_step hahead hexpected hnext' hdepth, hskip, hadvance, hdrop]

end Tree

/-! ### What matching comes to -/

/-- Remembers that terminals of several kinds were missed, one after the other. -/
def Peg.Missed.addAll {κ : Type} (m : Missed κ) (offset : Nat) (kinds : List κ) : Missed κ :=
  kinds.foldl (fun m k => m.add offset k) m

/-- What nodes that were matched in a state lead to. -/
abbrev Leads := List (ParseNode TokenKind Rule) → ParseState → Prop

section

variable (t : Text) (limit : Nat) (fits : Prop) (s : ParseState) (b r : Text)

/-- What matching may come to that goes on between `b` and `r`, where reading is in the state `s`.
Nodes are matched where reading comes to a state that they lead to, and matching fails where reading
stops, with all that it expected there missed. Where reading is refused for its nesting nothing is
said, and there is always room for calls if it `fits`. -/
inductive Continues (leads : Leads) : Option (Result TokenKind Rule) → Prop
  | refused {x : Option (Result TokenKind Rule)}
      (reading : Tree.readFrom limit s (.between b r) = refuse .nestingTooDeepToRead) :
      Continues leads x
  | overflow (room : ¬fits) : Continues leads none
  | matched {s' : ParseState} {x r' : Text} {nodes : List (ParseNode TokenKind Rule)}
      {m : Missed TokenKind} (split : r = x ++ r') (depth : s'.depth ≤ limit)
      (missed : m.offset < (b ++ x).length) (goal : leads nodes s')
      (reading : Tree.readFrom limit s (.between b r) =
        Tree.readFrom limit s' (.between (b ++ x) r')) :
      Continues leads (some (.matched nodes ⟨(b ++ x).length, r', m⟩))
  | stuck {m : Missed TokenKind} (far : b.length ≤ m.offset)
      (reading : Tree.readFrom limit s (.between b r) =
        .error (t.unmatched t.place m)) :
      Continues leads (some (.failed m))

/-- What matching may come to that starts with a token of one of the kinds. It fails at this token,
and all the kinds are missed there; or a token of one of them has been matched, and then it
continues. -/
inductive Starts (kinds : List TokenKind) (m₀ : Missed TokenKind) (leads : Leads) :
    Option (Result TokenKind Rule) → Prop
  | refused {x : Option (Result TokenKind Rule)}
      (reading : Tree.readFrom limit s (.between b r) = refuse .nestingTooDeepToRead) :
      Starts kinds m₀ leads x
  | overflow (room : ¬fits) : Starts kinds m₀ leads none
  | matched {k : TokenKind} {s' : ParseState} {x r' : Text}
      {nodes : List (ParseNode TokenKind Rule)} {m : Missed TokenKind} (kind : k ∈ kinds)
      (stands : k.Matches r.trimmed) (split : r = x ++ r') (far : r.leading.length < x.length)
      (depth : s'.depth ≤ limit) (missed : m.offset < (b ++ x).length) (goal : leads nodes s')
      (reading : Tree.readFrom limit s (.between b r) =
        Tree.readFrom limit s' (.between (b ++ x) r')) :
      Starts kinds m₀ leads (some (.matched nodes ⟨(b ++ x).length, r', m⟩))
  | missed (stands : ∀ k ∈ kinds, ¬k.Matches r.trimmed) :
      Starts kinds m₀ leads (some (.failed (m₀.addAll (b ++ r.leading).length kinds)))
  | stuck {k : TokenKind} {m : Missed TokenKind} (kind : k ∈ kinds) (stands : k.Matches r.trimmed)
      (far : (b ++ r.leading).length < m.offset)
      (reading : Tree.readFrom limit s (.between b r) =
        .error (t.unmatched t.place m)) :
      Starts kinds m₀ leads (some (.failed m))

end

variable {t : Text} {limit : Nat} {fits : Prop} {s : ParseState} {b r : Text}
  {kinds : List TokenKind} {m : Missed TokenKind} {leads leads' : Leads}
  {x : Option (Result TokenKind Rule)}

namespace Peg.Missed

lemma addAll_self {κ : Type} (offset : Nat) (ks ls : List κ) :
    addAll ⟨offset, ks⟩ offset ls = ⟨offset, ks ++ ls⟩ := by
  induction ls generalizing ks with
  | nil => rw [List.append_nil]; rfl
  | cons k ls ih =>
    have hadd : add ⟨offset, ks⟩ offset k = ⟨offset, ks ++ [k]⟩ := by simp [add]
    rw [addAll, List.foldl_cons, hadd, ← addAll, ih, List.append_assoc]
    rfl

/-- Nearer terminals count for nothing. -/
lemma add_of_lt {κ : Type} {m : Missed κ} {offset : Nat} (h : offset < m.offset) (k : κ) :
    m.add offset k = m := by
  rw [add, if_neg (by omega), if_neg (by omega)]

lemma add_offset_le {κ : Type} {m : Missed κ} {offset : Nat} (h : m.offset ≤ offset) (k : κ) :
    (m.add offset k).offset ≤ offset := by
  unfold add
  split
  · exact Nat.le_refl _
  · split <;> simp [h]

lemma addAll_of_lt {κ : Type} {m : Missed κ} {offset : Nat} (h : offset < m.offset)
    (ks : List κ) : m.addAll offset ks = m := by
  induction ks with
  | nil => rfl
  | cons k ks ih => rwa [addAll, List.foldl_cons, add_of_lt h]

lemma add_of_gt {κ : Type} {m : Missed κ} {offset : Nat} (h : m.offset < offset) {k : κ} :
    m.add offset k = ⟨offset, [k]⟩ := by
  rw [add, if_pos h]

/-- At a new place only what is missed there counts. -/
lemma addAll_of_gt {κ : Type} {m : Missed κ} {offset : Nat} (h : m.offset < offset) {ks : List κ}
    (hks : ks ≠ []) : m.addAll offset ks = ⟨offset, ks⟩ := by
  obtain ⟨k, ks, rfl⟩ := List.exists_cons_of_ne_nil hks
  rw [addAll, List.foldl_cons, add_of_gt h, ← addAll, addAll_self]
  rfl

end Peg.Missed

namespace Continues

lemma mono (h : Continues t limit fits s b r leads x) (hleads : ∀ nodes s', leads nodes s' →
    leads' nodes s') : Continues t limit fits s b r leads' x := by
  cases h with
  | refused reading => exact .refused reading
  | overflow room => exact .overflow room
  | matched split depth missed goal reading =>
    exact .matched split depth missed (hleads _ _ goal) reading
  | stuck far reading => exact .stuck far reading

/-- What goes on behind nodes that were matched. -/
lemma prepend {s' : ParseState} {y r' : Text} {nodes : List (ParseNode TokenKind Rule)}
    (split : r = y ++ r') (reading : Tree.readFrom limit s (.between b r) =
      Tree.readFrom limit s' (.between (b ++ y) r'))
    (h : Continues t limit fits s' (b ++ y) r' (fun more => leads (nodes ++ more)) x) :
    Continues t limit fits s b r leads (x.map (Result.prepend nodes)) := by
  cases h with
  | refused h => exact .refused (reading.trans h)
  | overflow room => exact .overflow room
  | @matched s'' z r'' _ _ split' depth missed goal h =>
    subst split split'
    rw [List.append_assoc] at missed h ⊢
    exact .matched (by rw [List.append_assoc]) depth missed goal (reading.trans h)
  | stuck far h =>
    refine .stuck (Nat.le_trans ?_ far) (reading.trans h)
    simp

/-- An expression, and then what follows it in a sequence. -/
lemma cons {n : Nat} {e : Expr TokenKind Rule} {es : List (Expr TokenKind Rule)}
    (he : Continues t limit fits s b r leads (Rule.grammar.match? n e ⟨b.length, r, m⟩))
    (hes : ∀ s' y r' nodes m', r = y ++ r' → s'.depth ≤ limit → m'.offset < (b ++ y).length →
      leads nodes s' → Continues t limit fits s' (b ++ y) r' (fun more => leads' (nodes ++ more))
        (matchAll (Rule.grammar.match? n) es ⟨(b ++ y).length, r', m'⟩)) :
    Continues t limit fits s b r leads'
      (matchAll (Rule.grammar.match? n) (e :: es) ⟨b.length, r, m⟩) := by
  rw [matchAll]
  generalize Rule.grammar.match? n e ⟨b.length, r, m⟩ = x at he
  cases he with
  | refused reading => exact .refused reading
  | overflow room => exact .overflow room
  | matched split depth missed goal reading =>
    exact prepend split reading (hes _ _ _ _ _ split depth missed goal)
  | stuck far reading => exact .stuck far reading

end Continues

namespace Starts

lemma mono (h : Starts t limit fits s b r kinds m leads x) (hleads : ∀ nodes s', leads nodes s' →
    leads' nodes s') : Starts t limit fits s b r kinds m leads' x := by
  cases h with
  | refused reading => exact .refused reading
  | overflow room => exact .overflow room
  | matched kind stands split far depth missed goal reading =>
    exact .matched kind stands split far depth missed (hleads _ _ goal) reading
  | missed stands => exact .missed stands
  | stuck kind stands far reading => exact .stuck kind stands far reading

/-- Behind something that was matched, what starts with all that is expected continues. -/
lemma continues (ht : t = b ++ r) (hm : m.offset < b.length)
    (h : Starts t limit fits s b r s.expected m leads x) :
    Continues t limit fits s b r leads x := by
  have hoffset : b.length ≤ (b ++ r.leading).length := by simp
  cases h with
  | refused reading => exact .refused reading
  | overflow room => exact .overflow room
  | matched kind stands split far depth missed goal reading =>
    exact .matched split depth missed goal reading
  -- what is missed here lies farther ahead than anything missed before
  | missed stands =>
    rw [Missed.addAll_of_gt (Nat.lt_of_lt_of_le hm hoffset) s.expected_ne_nil]
    exact .stuck hoffset (Tree.readFrom_unmatched ht stands)
  | stuck kind stands far reading => exact .stuck (Nat.le_trans hoffset far.le) reading

/-- What goes on behind nodes that were matched. -/
lemma prepend {k : TokenKind} {s' : ParseState} {y r' : Text}
    {nodes : List (ParseNode TokenKind Rule)} (kind : k ∈ kinds)
    (stands : k.Matches r.trimmed) (split : r = y ++ r')
    (far : r.leading.length < y.length) (reading : Tree.readFrom limit s (.between b r) =
      Tree.readFrom limit s' (.between (b ++ y) r'))
    (h : Continues t limit fits s' (b ++ y) r' (fun more => leads (nodes ++ more)) x) :
    Starts t limit fits s b r kinds m leads (x.map (Result.prepend nodes)) := by
  cases h with
  | refused h => exact .refused (reading.trans h)
  | overflow room => exact .overflow room
  | matched split' depth missed goal h =>
    subst split split'
    rw [List.append_assoc] at missed h ⊢
    refine .matched kind stands (by rw [List.append_assoc]) ?_ depth missed goal (reading.trans h)
    rw [List.length_append]
    omega
  | stuck far' h =>
    refine .stuck kind stands (Nat.lt_of_lt_of_le ?_ far') (reading.trans h)
    simp only [List.length_append]
    omega

/-- An expression, and then what follows it in a sequence. -/
lemma cons {n : Nat} {e : Expr TokenKind Rule} {es : List (Expr TokenKind Rule)}
    (he : Starts t limit fits s b r kinds m leads (Rule.grammar.match? n e ⟨b.length, r, m⟩))
    (hes : ∀ s' y r' nodes m', r = y ++ r' → s'.depth ≤ limit → m'.offset < (b ++ y).length →
      leads nodes s' → Continues t limit fits s' (b ++ y) r' (fun more => leads' (nodes ++ more))
        (matchAll (Rule.grammar.match? n) es ⟨(b ++ y).length, r', m'⟩)) :
    Starts t limit fits s b r kinds m leads'
      (matchAll (Rule.grammar.match? n) (e :: es) ⟨b.length, r, m⟩) := by
  rw [matchAll]
  generalize Rule.grammar.match? n e ⟨b.length, r, m⟩ = x at he
  cases he with
  | refused reading => exact .refused reading
  | overflow room => exact .overflow room
  | matched kind stands split far depth missed goal reading =>
    exact prepend kind stands split far reading (hes _ _ _ _ _ split depth missed goal)
  | missed stands => exact .missed stands
  | stuck kind stands far reading => exact .stuck kind stands far reading

/-- The node of a rule. -/
lemma wrap {rule : Rule}
    (h : Starts t limit fits s b r kinds m (fun nodes s' => leads [.rule rule nodes] s') x) :
    Starts t limit fits s b r kinds m leads (x.map (Result.wrap rule)) := by
  cases h with
  | refused reading => exact .refused reading
  | overflow room => exact .overflow room
  | matched kind stands split far depth missed goal reading =>
    exact .matched kind stands split far depth missed goal reading
  | missed stands => exact .missed stands
  | stuck kind stands far reading => exact .stuck kind stands far reading

end Starts

/-! ### Terminals -/

lemma skip_eq (b r : Text) (m : Missed TokenKind) : Rule.grammar.skip ⟨b.length, r, m⟩ =
    ⟨(b ++ r.leading).length, r.trimmed, m⟩ := by
  have hdrop : (r.leading ++ r.trimmed).drop r.leading.length = r.trimmed := List.drop_left
  rw [r.leading_append_trimmed] at hdrop
  rw [List.length_append, ← hdrop]
  rfl

/-- What a terminal leads to: its node has the place and the text of the next token, over which
reading steps. -/
def TerminalLeads (s : ParseState) (b r : Text) (k : TokenKind) : Leads := fun nodes s' =>
  ∃ tok y, tok.kind = k ∧ nodes = [.terminal k (b ++ r.leading).length y] ∧
    Token.read? k y = some (tok, y.length) ∧ s.next (b ++ r.leading).endPosition tok = some s'

lemma matchTerminal_of_not_matches {k : TokenKind} (h : ¬k.Matches r.trimmed) :
    Rule.grammar.matchTerminal (ν := Rule) k ⟨b.length, r, m⟩ =
      .failed (m.add (b ++ r.leading).length k) := by
  have hnone : Rule.grammar.length? k r.trimmed = none := Option.not_isSome_iff_eq_none.mp h
  simp only [Peg.Grammar.matchTerminal, skip_eq, hnone]

lemma matchTerminal_of_read {k : TokenKind} {tok : Token} {n : Nat} (hk : k ≠ .endOfText)
    (h : Token.read? k r.trimmed = some (tok, n)) :
    Rule.grammar.matchTerminal (ν := Rule) k ⟨b.length, r, m⟩ =
      .matched [.terminal k (b ++ r.leading).length (r.trimmed.take n)]
        ⟨(b ++ r.leading).length + n, r.trimmed.drop n, m⟩ := by
  have hsome : Rule.grammar.length? k r.trimmed = some n := by
    rw [show Rule.grammar.length? k r.trimmed = _ from TokenKind.length?_of_ne hk _, h]
    rfl
  simp only [Peg.Grammar.matchTerminal, skip_eq, hsome]
  rfl

/-- A terminal that is expected matches where reading steps over a token of its kind. -/
lemma starts_terminal {k : TokenKind} {n : Nat} (hk : k ∈ s.expected) (hend : k ≠ .endOfText)
    (hm : m.offset ≤ (b ++ r.leading).length) (hroom : fits → 0 < n) :
    Starts t limit fits s b r [k] m (TerminalLeads s b r k)
      (Rule.grammar.match? n (.terminal k) ⟨b.length, r, m⟩) := by
  cases n with
  | zero => exact .overflow fun h => Nat.lt_irrefl 0 (hroom h)
  | succ n =>
    rw [Peg.Grammar.match?]
    by_cases hmatches : k.Matches r.trimmed
    · obtain ⟨tok, l, hread⟩ := hmatches.exists_read hend
      obtain rfl := (Token.spelled_of_read? hread).1
      obtain ⟨s', hnext⟩ := ParseState.exists_next_iff.mpr hk
      -- a token that is expected moves the reading and the matching by the same code points
      rw [matchTerminal_of_read hend hread]
      rcases Tree.readFrom_token hread hnext with h | ⟨hdepth, y, hy, rfl, hne, halone, h⟩
      · exact .refused h
      · have hsplit : r = (r.leading ++ y) ++ r.trimmed.drop y.length := by
          rw [List.append_assoc, ← hy, r.leading_append_trimmed]
        have htake : r.trimmed.take y.length = y := by
          rw [hy]
          exact List.take_left
        have hoffset : (b ++ r.leading).length + y.length = (b ++ (r.leading ++ y)).length := by
          simp only [List.length_append]
          omega
        have hpos := List.length_pos_of_ne_nil hne
        rw [hoffset]
        refine .matched (by simp) hmatches hsplit ?_ hdepth ?_ ⟨tok, y, rfl, by rw [htake], halone,
          hnext⟩ h
        · rw [List.length_append]
          omega
        · rw [← hoffset]
          omega
    · rw [matchTerminal_of_not_matches hmatches]
      exact .missed (by simpa using hmatches)

/-! ### Alternatives -/

/-- An expression that starts with a token of one kind, and fails at once where no such token
stands. -/
structure Alternative (t : Text) (limit : Nat) (fits : Prop) (s : ParseState) (b r : Text)
    (leads : Leads) (n : Nat) (e : Expr TokenKind Rule) (k : TokenKind) : Prop where
  starts : ∀ m : Missed TokenKind, m.offset ≤ (b ++ r.leading).length →
    Starts t limit fits s b r [k] m leads (Rule.grammar.match? n e ⟨b.length, r, m⟩)
  misses : ¬k.Matches r.trimmed → ∀ m : Missed TokenKind,
    Rule.grammar.match? n e ⟨b.length, r, m⟩ = some (.failed (m.add (b ++ r.leading).length k))

lemma alternative_terminal {k : TokenKind} {n : Nat} (hk : k ∈ s.expected) (hend : k ≠ .endOfText)
    (hn : 0 < n) : Alternative t limit fits s b r (TerminalLeads s b r k) n (.terminal k) k where
  starts m hm := starts_terminal hk hend hm fun _ => hn
  misses h m := by
    obtain ⟨n, rfl⟩ := Nat.exists_eq_succ_of_ne_zero hn.ne'
    rw [Peg.Grammar.match?, matchTerminal_of_not_matches h]

lemma matchFirst_of_not_matches {n : Nat} {es : List (Expr TokenKind Rule)}
    (h : List.Forall₂ (Alternative t limit fits s b r leads n) es kinds)
    (hkinds : ∀ k ∈ kinds, ¬k.Matches r.trimmed) (m : Missed TokenKind) :
    matchFirst (Rule.grammar.match? n) es ⟨b.length, r, m⟩ =
      some (.failed (m.addAll (b ++ r.leading).length kinds)) := by
  induction h generalizing m with
  | nil => rfl
  | cons he _ ih =>
    rw [List.forall_mem_cons] at hkinds
    rw [matchFirst, he.misses hkinds.1]
    exact ih hkinds.2 _

/-- The first alternative that does not miss its token is the only one that counts. -/
lemma starts_first {n : Nat} {es : List (Expr TokenKind Rule)}
    (h : List.Forall₂ (Alternative t limit fits s b r leads n) es kinds)
    (hkinds : kinds.Nodup) (hm : m.offset ≤ (b ++ r.leading).length) :
    Starts t limit fits s b r kinds m leads
      (matchFirst (Rule.grammar.match? n) es ⟨b.length, r, m⟩) := by
  induction h generalizing m with
  | nil => exact .missed nofun
  | @cons e k es kinds he hes ih =>
    obtain ⟨hk, hkinds⟩ := List.nodup_cons.mp hkinds
    rw [matchFirst]
    have hstarts := he.starts m hm
    generalize Rule.grammar.match? n e ⟨b.length, r, m⟩ = x at hstarts
    cases hstarts with
    | refused reading => exact .refused reading
    | overflow room => exact .overflow room
    | matched kind stands split far depth missed goal reading =>
      obtain rfl := List.mem_singleton.mp kind
      exact .matched List.mem_cons_self stands split far depth missed goal reading
    | missed stands =>
      have hadd : (m.add (b ++ r.leading).length k).offset ≤ (b ++ r.leading).length :=
        Missed.add_offset_le hm k
      have hrest := ih hkinds hadd
      simp only [Missed.addAll, List.foldl_cons, List.foldl_nil]
      generalize matchFirst (Rule.grammar.match? n) es _ = x at hrest
      cases hrest with
      | refused reading => exact .refused reading
      | overflow room => exact .overflow room
      | matched kind stands split far depth missed goal reading =>
        exact .matched (List.mem_cons_of_mem _ kind) stands split far depth missed goal reading
      | missed stands' => exact .missed (by simpa using ⟨by simpa using stands, stands'⟩)
      | stuck kind stands far reading =>
        exact .stuck (List.mem_cons_of_mem _ kind) stands far reading
    | @stuck k' m' kind stands far reading =>
      obtain rfl := List.mem_singleton.mp kind
      -- the token that stands here is of no other kind, so the alternatives left fail too near
      have hothers : ∀ k ∈ kinds, ¬k.Matches r.trimmed := fun k'' hk'' h => hk (stands.eq h ▸ hk'')
      dsimp only
      rw [matchFirst_of_not_matches hes hothers, Missed.addAll_of_lt far]
      exact .stuck List.mem_cons_self stands far reading

/-! ### What may be left out -/

/-- What matching comes to that cannot fail, before a terminal that closes a container. It has gone
as far as it could: what else could come but the closing terminal is missed at the next token, or it
stands there and matching failed behind it. -/
inductive Trails (t : Text) (limit : Nat) (fits : Prop) (s : ParseState) (b r : Text)
    (close : TokenKind) (leads : Leads) : Option (Result TokenKind Rule) → Prop
  | refused {x : Option (Result TokenKind Rule)}
      (reading : Tree.readFrom limit s (.between b r) = refuse .nestingTooDeepToRead) :
      Trails t limit fits s b r close leads x
  | overflow (room : ¬fits) : Trails t limit fits s b r close leads none
  | ended {s' : ParseState} {y r' : Text} {nodes : List (ParseNode TokenKind Rule)}
      {kinds : List TokenKind} (split : r = y ++ r') (goal : leads nodes s')
      (expected : s'.expected = kinds ++ [close]) (stands : ∀ k ∈ kinds, ¬k.Matches r'.trimmed)
      (reading : Tree.readFrom limit s (.between b r) =
        Tree.readFrom limit s' (.between (b ++ y) r')) :
      Trails t limit fits s b r close leads (some (.matched nodes
        ⟨(b ++ y).length, r', ⟨(b ++ (y ++ r'.leading)).length, kinds⟩⟩))
  | stuck {y r' : Text} {nodes : List (ParseNode TokenKind Rule)} {k : TokenKind}
      {m : Missed TokenKind} (split : r = y ++ r') (stands : k.Matches r'.trimmed)
      (other : k ≠ close) (far : (b ++ (y ++ r'.leading)).length < m.offset)
      (reading : Tree.readFrom limit s (.between b r) =
        .error (t.unmatched t.place m)) :
      Trails t limit fits s b r close leads (some (.matched nodes ⟨(b ++ y).length, r', m⟩))

lemma matchAll_singleton {match? : Expr TokenKind Rule → State TokenKind →
    Option (Result TokenKind Rule)} (e : Expr TokenKind Rule) (st : State TokenKind) :
    matchAll match? [e] st = match? e st := by
  simp only [matchAll]
  split
  · next h => simp [h, Result.prepend]
  · rfl

/-- The end of a container. -/
lemma Trails.close {close : TokenKind} {n : Nat} {e : Expr TokenKind Rule} (ht : t = b ++ r)
    (hclose : close ≠ .endOfText) (hroom : fits → 0 < n)
    (he : Trails t limit fits s b r close leads (Rule.grammar.match? n e ⟨b.length, r, m⟩))
    (hleads : ∀ nodes s' c v node s'', leads nodes s' → TerminalLeads s' c v close [node] s'' →
      leads' (nodes ++ [node]) s'') :
    Continues t limit fits s b r leads'
      (matchAll (Rule.grammar.match? n) [e, .terminal close] ⟨b.length, r, m⟩) := by
  rw [matchAll]
  generalize Rule.grammar.match? n e ⟨b.length, r, m⟩ = x at he
  cases he with
  | refused reading => exact .refused reading
  | overflow room => exact .overflow room
  | @ended s' y r' nodes kinds split goal expected stands reading =>
    -- the terminal that closes is tried where the trail has ended, and what was missed there is
    -- kept
    refine .prepend split reading ?_
    rw [matchAll_singleton, ← List.append_assoc]
    have hexpected : close ∈ s'.expected := by simp [expected]
    have hterminal : Starts t limit fits s' (b ++ y) r' [close]
        ⟨(b ++ y ++ r'.leading).length, kinds⟩ (TerminalLeads s' (b ++ y) r' close)
        (Rule.grammar.match? n (.terminal close)
          ⟨(b ++ y).length, r', ⟨(b ++ y ++ r'.leading).length, kinds⟩⟩) :=
      starts_terminal hexpected hclose (Nat.le_refl _) hroom
    generalize Rule.grammar.match? n (.terminal close) _ = x at hterminal
    cases hterminal with
    | refused h => exact .refused h
    | overflow room => exact .overflow room
    | matched _ _ split' far depth missed goal' h =>
      obtain ⟨tok, v, hk, rfl, hrest⟩ := goal'
      exact .matched split' depth missed (hleads _ _ _ _ _ _ goal ⟨tok, v, hk, rfl, hrest⟩) h
    | missed stands' =>
      rw [Missed.addAll_self, ← expected]
      -- both the separator and the closing terminal are missed, which is all that was expected
      refine .stuck (by simp) (Tree.readFrom_unmatched (by rw [ht, split, List.append_assoc]) ?_)
      rw [expected]
      simpa [or_imp, forall_and] using ⟨stands, by simpa using stands'⟩
    | stuck _ _ far h => exact .stuck (Nat.le_trans (by simp) far.le) h
  | @stuck y r' nodes k m' split stands other far reading =>
    dsimp only
    rw [matchAll_singleton]
    cases n with
    | zero => exact .overflow fun h => Nat.lt_irrefl 0 (hroom h)
    | succ n =>
      have hclosed : ¬close.Matches r'.trimmed := fun h => other (stands.eq h)
      rw [← List.append_assoc] at far
      rw [Peg.Grammar.match?, matchTerminal_of_not_matches hclosed, Missed.add_of_lt far]
      refine .stuck (Nat.le_trans ?_ far.le) reading
      simp only [List.length_append]
      omega

lemma Trails.mono {close : TokenKind} (h : Trails t limit fits s b r close leads x)
    (hleads : ∀ nodes s', leads nodes s' → leads' nodes s') :
    Trails t limit fits s b r close leads' x := by
  cases h with
  | refused reading => exact .refused reading
  | overflow room => exact .overflow room
  | ended split goal expected stands reading =>
    exact .ended split (hleads _ _ goal) expected stands reading
  | stuck split stands other far reading => exact .stuck split stands other far reading

lemma Trails.orNothing {close : TokenKind} (h : Trails t limit fits s b r close leads x)
    (st : State TokenKind) :
    Trails t limit fits s b r close leads (x.map (Result.orNothing st)) := by
  cases h with
  | refused reading => exact .refused reading
  | overflow room => exact .overflow room
  | ended split goal expected stands reading => exact .ended split goal expected stands reading
  | stuck split stands other far reading => exact .stuck split stands other far reading

/-- Nothing was left to be matched. -/
lemma Trails.here {close : TokenKind} {nodes : List (ParseNode TokenKind Rule)}
    (goal : leads nodes s) (expected : s.expected = kinds ++ [close])
    (stands : ∀ k ∈ kinds, ¬k.Matches r.trimmed) :
    Trails t limit fits s b r close leads (some (.matched nodes
      ⟨b.length, r, ⟨(b ++ r.leading).length, kinds⟩⟩)) := by
  have hreading : Tree.readFrom limit s (.between b r) =
      Tree.readFrom limit s (.between (b ++ []) r) := by rw [List.append_nil]
  have hended : Trails t limit fits s b r close leads (some (.matched nodes
      ⟨(b ++ []).length, r, ⟨(b ++ ([] ++ r.leading)).length, kinds⟩⟩)) :=
    .ended (List.nil_append r).symm goal expected stands hreading
  rwa [List.nil_append, List.append_nil] at hended

/-- Matching failed behind the next token. -/
lemma Trails.stuckHere {close k : TokenKind} (stands : k.Matches r.trimmed) (other : k ≠ close)
    (far : (b ++ r.leading).length < m.offset)
    (reading : Tree.readFrom limit s (.between b r) = .error (t.unmatched t.place m)) :
    Trails t limit fits s b r close leads (some (.matched [] ⟨b.length, r, m⟩)) := by
  rw [← List.nil_append r.leading] at far
  have hstuck : Trails t limit fits s b r close leads
      (some (.matched [] ⟨(b ++ []).length, r, m⟩)) :=
    .stuck (List.nil_append r).symm stands other far reading
  rwa [List.append_nil] at hstuck

/-- What goes on behind nodes that were matched. -/
lemma Trails.prepend {s' : ParseState} {y r' : Text} {close : TokenKind}
    {nodes : List (ParseNode TokenKind Rule)} (split : r = y ++ r')
    (reading : Tree.readFrom limit s (.between b r) = Tree.readFrom limit s' (.between (b ++ y) r'))
    (h : Trails t limit fits s' (b ++ y) r' close (fun more => leads (nodes ++ more)) x) :
    Trails t limit fits s b r close leads (x.map (Result.prepend nodes)) := by
  cases h with
  | refused h => exact .refused (reading.trans h)
  | overflow room => exact .overflow room
  | @ended s'' z r'' _ _ split' goal expected stands h =>
    subst split split'
    rw [List.append_assoc] at h
    simp only [Option.map_some, Result.prepend, List.append_assoc]
    rw [← List.append_assoc y z r''.leading]
    exact .ended (List.append_assoc y z r'').symm goal expected stands (reading.trans h)
  | @stuck z r'' _ _ _ split' stands other far h =>
    subst split split'
    simp only [Option.map_some, Result.prepend, List.append_assoc]
    refine .stuck (by rw [List.append_assoc]) stands other ?_ (reading.trans h)
    simpa only [List.append_assoc] using far

/-! ### Items and members -/

/-- What visiting nodes gives, marks apart. -/
def gathered (place : Nat → Position) (nodes : List (ParseNode TokenKind Rule)) :
    Outcome (List Visited) := Visited.flatten <$> Visited.ofNodes place nodes

lemma gathered_nil (place : Nat → Position) : gathered place [] = .ok [] := rfl

lemma gathered_cons (place : Nat → Position) (node : ParseNode TokenKind Rule)
    (nodes : List (ParseNode TokenKind Rule)) : gathered place (node :: nodes) =
      Visited.ofNode place node >>= fun v =>
        (Visited.flatten [v] ++ ·) <$> gathered place nodes := by
  rw [gathered, gathered, Visited.ofNodes]
  cases Visited.ofNode place node with
  | error e => rfl
  | ok v =>
    cases Visited.ofNodes place nodes with
    | error e => rfl
    | ok vs => exact congrArg Except.ok (List.filter_append (p := _) [v] vs)

lemma gathered_append (place : Nat → Position) (nodes more : List (ParseNode TokenKind Rule)) :
    gathered place (nodes ++ more) =
      gathered place nodes >>= fun vs => (vs ++ ·) <$> gathered place more := by
  -- appended nodes are visited one by one, and the first failure is the same
  induction nodes with
  | nil => cases h : gathered place more <;> simp [gathered_nil, Outcome.ok_bind, h]
  | cons node nodes ih =>
    rw [List.cons_append, gathered_cons, gathered_cons, ih]
    cases Visited.ofNode place node with
    | error e => rfl
    | ok v =>
      cases gathered place nodes with
      | error e => rfl
      | ok vs =>
        cases gathered place more with
        | error e => rfl
        | ok ws => exact congrArg Except.ok (List.append_assoc _ vs ws).symm

/-- One node that gives what `give` says of an item or member. -/
def OneLeads {α : Type} (place : Nat → Position) (after : α → ParseState)
    (give : α → Outcome Visited) : Leads := fun nodes s' =>
  ∃ node a, nodes = [node] ∧ s' = after a ∧ Visited.ofNode place node = give a

/-- Nodes that give what `give` says of items or members, behind those before. -/
def ManyLeads {α : Type} (place : Nat → Position) (after : List α → ParseState) (before : List α)
    (give : α → Outcome Visited) : Leads := fun nodes s' =>
  ∃ as : List α, s' = after (as.reverse ++ before) ∧ gathered place nodes = as.mapM give

/-- Nothing or nodes that give what `give` says of items or members. -/
def SeparatedLeads {α : Type} (place : Nat → Position) (first : ParseState)
    (after : List α → ParseState) (give : α → Outcome Visited) : Leads := fun nodes s' =>
  ∃ as : List α, (as = [] ∧ s' = first ∨ s' = after as.reverse) ∧
    gathered place nodes = as.mapM give

/-- How a list with commas is read: `after` items or members that were read, in reverse, there may
be a comma, and then one `more`; they give what `give` says. -/
structure Separates {α : Type} (after more : List α → ParseState) (close : TokenKind)
    (give : α → Outcome Visited) : Prop where
  expected : ∀ as, (after as).expected = [.comma, close]
  next : ∀ as pos, (after as).next pos .comma = some (more as)
  close_ne : close ≠ .comma
  give_flatten : ∀ a v, give a = .ok v → Visited.flatten [v] = [v]

section Separated

variable {α : Type} {after more : List α → ParseState} {close : TokenKind}
  {give : α → Outcome Visited}

/-- A comma and another item. -/
lemma starts_comma {n : Nat} {e : Expr TokenKind Rule} (h : Separates after more close give)
    (ht : t = b ++ r) (hm : m.offset < b.length) (hroom : fits → 0 < n) (as : List α)
    (he : ∀ b r m, t = b ++ r → m.offset < b.length → (more as).depth ≤ limit →
      Continues t limit fits (more as) b r (OneLeads t.place (fun a => after (a :: as)) give)
        (Rule.grammar.match? n e ⟨b.length, r, m⟩)) :
    Starts t limit fits (after as) b r [.comma] m
      (fun nodes s' => ∃ a, s' = after (a :: as) ∧
        gathered t.place nodes = (fun v => [v]) <$> give a)
      (matchAll (Rule.grammar.match? n) [.terminal .comma, e] ⟨b.length, r, m⟩) := by
  have hcomma : Starts t limit fits (after as) b r [.comma] m
      (TerminalLeads (after as) b r .comma)
      (Rule.grammar.match? n (.terminal .comma) ⟨b.length, r, m⟩) :=
    starts_terminal (by simp [h.expected]) nofun (Nat.le_trans hm.le (by simp)) hroom
  refine hcomma.cons fun s' y r' nodes m' split depth missed goal => ?_
  obtain ⟨tok, v, hk, rfl, -, hnext⟩ := goal
  obtain rfl : tok = .comma := by cases tok <;> first | rfl | cases hk
  obtain rfl := Option.some.inj ((h.next as _).symm.trans hnext)
  rw [matchAll_singleton]
  have ht' : t = (b ++ y) ++ r' := by rw [ht, split, List.append_assoc]
  refine (he _ _ _ ht' missed depth).mono fun nodes s'' hgoal => ?_
  obtain ⟨node, a, rfl, rfl, hnode⟩ := hgoal
  refine ⟨a, rfl, ?_⟩
  rw [List.singleton_append, gathered_cons, gathered_cons, gathered_nil, hnode]
  cases hv : give a with
  | error e => rfl
  | ok v =>
    change Except.ok (Visited.flatten [.mark _] ++ (Visited.flatten [v] ++ [])) = Except.ok [v]
    rw [h.give_flatten a v hv]
    rfl

/-- Commas and items as far as they go. -/
lemma trails_often {n : Nat} {e : Expr TokenKind Rule} (h : Separates after more close give)
    (hroom : fits → 0 < n)
    (he : ∀ as b r m, t = b ++ r → m.offset < b.length → (more as).depth ≤ limit →
      Continues t limit fits (more as) b r (OneLeads t.place (fun a => after (a :: as)) give)
        (Rule.grammar.match? n e ⟨b.length, r, m⟩)) :
    ∀ as b r m, t = b ++ r → m.offset < b.length →
      Trails t limit fits (after as) b r close (ManyLeads t.place after as give)
        (matchOften (Rule.grammar.match? (n + 1)) (.sequence [.terminal .comma, e])
          ⟨b.length, r, m⟩) := by
  -- on the length of the text that is left; an item is never empty, since a comma stands before it
  intro as b r m ht hm
  induction hlength : r.length using Nat.strong_induction_on generalizing as b r m with
  | _ l ih =>
  have hcomma := starts_comma (m := m) h ht hm hroom as (he as)
  rw [matchOften, Peg.Grammar.match?]
  generalize matchAll (Rule.grammar.match? n) [.terminal .comma, e] ⟨b.length, r, m⟩ = x at hcomma
  cases hcomma with
  | refused reading => exact .refused reading
  | overflow room => exact .overflow room
  | @matched k s' y r' nodes m' kind stands split far depth missed goal reading =>
    obtain ⟨a, rfl, hgathered⟩ := goal
    have hshorter : r'.length < r.length := by
      rw [split, List.length_append]
      omega
    dsimp only
    rw [if_pos hshorter]
    have hrest := ih r'.length (hlength ▸ hshorter) (a :: as) (b ++ y) r' m'
      (by rw [ht, split, List.append_assoc]) missed rfl
    refine .prepend split reading (hrest.mono fun more s'' hmore => ?_)
    obtain ⟨as', rfl, hmore⟩ := hmore
    refine ⟨a :: as', by simp, ?_⟩
    rw [gathered_append, hgathered, hmore, List.mapM_cons]
    cases give a <;> cases as'.mapM give <;> rfl
  -- no comma: the trail ends here, and nothing was missed farther ahead
  | missed stands =>
    rw [Missed.addAll_of_gt (Nat.lt_of_lt_of_le hm (by simp)) (by simp)]
    exact .here ⟨[], rfl, gathered_nil _⟩ (h.expected as) stands
  | @stuck k m' kind stands far reading =>
    -- a comma, but no item behind it: the whole sequence gives way and the trail is stuck
    obtain rfl := List.mem_singleton.mp kind
    exact .stuckHere stands h.close_ne.symm far reading

/-- Nothing, or a first item or member, and then others as far as they go. There is room for them if
there is for five calls. -/
lemma trails_separated {n : Nat} {e : Rule} (h : Separates after more close give) (ht : t = b ++ r)
    (hm : m.offset < b.length) (hroom : fits → 5 ≤ n) (hexpected : s.expected = kinds ++ [close])
    (hne : kinds ≠ [])
    (hfirst : Starts t limit fits s b r kinds m (OneLeads t.place (fun a => after [a]) give)
      (Rule.grammar.match? (n - 2) (.rule e) ⟨b.length, r, m⟩))
    (he : ∀ as b r m, t = b ++ r → m.offset < b.length → (more as).depth ≤ limit →
      Continues t limit fits (more as) b r (OneLeads t.place (fun a => after (a :: as)) give)
        (Rule.grammar.match? (n - 4) (.rule e) ⟨b.length, r, m⟩)) :
    Trails t limit fits s b r close (SeparatedLeads t.place s after give)
      (Rule.grammar.match? n (Rule.separated (.rule e)) ⟨b.length, r, m⟩) := by
  -- the depth of the expression itself: optional, sequence, repetition and the rule below
  match n, hroom, hfirst, he with
  | 0, hroom, _, _ | 1, hroom, _, _ | 2, hroom, _, _ | 3, hroom, _, _ =>
    exact .overflow fun hfits => absurd (hroom hfits) (by decide)
  | n + 4, hroom, hfirst, he =>
    have hpos : fits → 0 < n := fun hfits => by have := hroom hfits; omega
    rw [Rule.separated, Peg.Grammar.match?, Peg.Grammar.match?, matchAll]
    rw [Nat.add_sub_cancel] at he
    change Starts t limit fits s b r kinds m _ (Rule.grammar.match? (n + 2) _ _) at hfirst
    generalize Rule.grammar.match? (n + 2) (.rule e) ⟨b.length, r, m⟩ = x at hfirst
    cases hfirst with
    | refused reading => exact .refused reading
    | overflow room => exact .overflow room
    | matched kind stands split far depth missed goal reading =>
      obtain ⟨node, a, rfl, rfl, hnode⟩ := goal
      have hrest := trails_often h hpos he [a] _ _ _ (by rw [ht, split, List.append_assoc]) missed
      dsimp only
      rw [matchAll_singleton, Peg.Grammar.match?]
      refine (Trails.prepend split reading (hrest.mono fun nodes s' hnodes => ?_)).orNothing _
      obtain ⟨as, rfl, hnodes⟩ := hnodes
      refine ⟨a :: as, .inr (by simp), ?_⟩
      rw [List.singleton_append, gathered_cons, hnode, hnodes, List.mapM_cons]
      cases hv : give a with
      | error e => rfl
      | ok v => cases hvs : as.mapM give <;> simp [Outcome.ok_bind, h.give_flatten a v hv]
    -- nothing stands here at all, so the optional expression leaves the text as it is
    | missed stands =>
      rw [Missed.addAll_of_gt (Nat.lt_of_lt_of_le hm (by simp)) hne]
      exact .here ⟨[], .inl ⟨rfl, rfl⟩, gathered_nil _⟩ hexpected stands
    | @stuck k m' kind stands far reading =>
      have hother : k ≠ close := by
        have hnodup := s.nodup_expected
        rw [hexpected, List.nodup_append] at hnodup
        exact hnodup.2.2 k kind close List.mem_cons_self
      exact .stuckHere stands hother far reading

end Separated

/-! ### Containers -/

/-- What visiting the node of a tree gives. -/
def Tree.visited (tree : Tree) : Outcome Visited := Visited.value <$> tree.resolve

/-- A node for a value, behind which reading goes on in the containers around. -/
abbrev ValueLeads (place : Nat → Position) (stack : List Frame) : Leads :=
  OneLeads place (ParseState.afterValue · stack) Tree.visited

/-- How a container is read inside others, and what its rule gives for the items or members in it.
It is in the `first` state before anything else than its opening terminal is read. -/
structure Encloses {α : Type} (stack : List Frame) (rule inner : Rule)
    (opening close : TokenKind) (kinds : List TokenKind) (first : Position → ParseState)
    (after more : Position → List α → ParseState) (tree : Position → List α → Tree)
    (give : α → Outcome Visited) : Prop where
  body : rule.body =
    .sequence [.terminal opening, Rule.separated (.rule inner), .terminal close]
  separates : ∀ start, Separates (after start) (more start) close give
  expected : ∀ start, (first start).expected = kinds ++ [close]
  kinds_ne : kinds ≠ []
  marks : ∀ k, k = opening ∨ k = close → k ≠ .endOfText ∧
    ∀ start y, Visited.ofTerminal start y k = .ok (.mark y)
  close_first : ∀ start pos tok s, tok.kind = close → (first start).next pos tok = some s →
    s = ParseState.afterValue (tree start []) stack
  close_after : ∀ start as pos tok s, tok.kind = close →
    (after start as.reverse).next pos tok = some s →
    s = ParseState.afterValue (tree start as) stack
  visit : ∀ start as, (as.mapM give >>= fun vs => Visited.ofRule start vs rule) =
    (tree start as).visited

/-- A rule looks at values and members only. -/
lemma ofNode_rule (place : Nat → Position) (rule : Rule) (nodes : List (ParseNode TokenKind Rule)) :
    Visited.ofNode place (.rule rule nodes) = gathered place nodes >>= fun vs =>
      Visited.ofRule (place (ParseNode.rule rule nodes).offset) vs rule := by
  -- the marks of a rule are dropped before its parts are looked at
  have hflatten (vs : List Visited) :
      Visited.flatten (Visited.flatten vs) = Visited.flatten vs := by
    simp [Visited.flatten]
  have hrule (start : Position) (vs : List Visited) :
      Visited.ofRule start vs rule = Visited.ofRule start (Visited.flatten vs) rule := by
    cases rule <;> simp only [Visited.ofRule, hflatten]
  rw [Visited.ofNode, gathered]
  cases Visited.ofNodes place nodes with
  | error e => rfl
  | ok vs => exact hrule _ vs

section Containers

variable {α : Type} {stack : List Frame} {rule inner : Rule} {opening close : TokenKind}
  {first : Position → ParseState} {after more : Position → List α → ParseState}
  {tree : Position → List α → Tree} {give : α → Outcome Visited}

/-- The node of a container gives what its tree does. -/
lemma Encloses.valueLeads
    (h : Encloses stack rule inner opening close kinds first after more tree give)
    {start : Position} {o : Nat} (hstart : t.place o = start) {c v y : Text}
    {node : ParseNode TokenKind Rule} {nodes : List (ParseNode TokenKind Rule)}
    {s' s'' : ParseState}
    (hnodes : SeparatedLeads t.place (first start) (after start) give nodes s')
    (hclose : TerminalLeads s' c v close [node] s'') :
    ValueLeads t.place stack [.rule rule (.terminal opening o y :: (nodes ++ [node]))] s'' := by
  obtain ⟨as, hs', hgathered⟩ := hnodes
  obtain ⟨tok, z, hk, hnode, -, hnext⟩ := hclose
  obtain rfl := List.singleton_injective hnode
  refine ⟨_, tree start as, rfl, ?_, ?_⟩
  -- an empty container is closed from its first state, any other from the one after an item
  · rcases hs' with ⟨rfl, rfl⟩ | rfl
    · exact h.close_first _ _ _ _ hk hnext
    · exact h.close_after _ _ _ _ _ hk hnext
  · have hopening : Visited.ofNode t.place (.terminal opening o y) = .ok (.mark y) :=
      (h.marks _ (.inl rfl)).2 _ _
    have hclosing : Visited.ofNode t.place (.terminal close (c ++ v.leading).length z) =
      .ok (.mark z) := (h.marks _ (.inr rfl)).2 _ _
    rw [ofNode_rule, gathered_cons, gathered_append, gathered_cons, gathered_nil, hopening,
      hclosing, hgathered, ← h.visit]
    have hoffset : (ParseNode.rule rule (.terminal opening o y :: (nodes ++
      [.terminal close (c ++ v.leading).length z]))).offset = o := rfl
    rw [hoffset, hstart]
    cases as.mapM give with
    | error e => rfl
    | ok vs =>
      change Visited.ofRule start ([] ++ (vs ++ [])) rule = Visited.ofRule start vs rule
      rw [List.nil_append, List.append_nil]

/-- A container is an alternative that starts with its opening terminal. -/
lemma alternative_container {n : Nat}
    (h : Encloses stack rule inner opening close kinds first after more tree give)
    (ht : t = b ++ r) (hopening : opening ∈ s.expected)
    (hnext : ∀ pos tok s', tok.kind = opening → s.next pos tok = some s' → s' = first pos)
    (hn : 0 < n) (hroom : ∀ start, (first start).depth ≤ limit → fits → 5 ≤ n)
    (hfirst : ∀ start b r m, t = b ++ r → m.offset < b.length → (first start).depth ≤ limit →
      Starts t limit fits (first start) b r kinds m
        (OneLeads t.place (fun a => after start [a]) give)
        (Rule.grammar.match? (n - 2) (.rule inner) ⟨b.length, r, m⟩))
    (he : ∀ start as b r m, t = b ++ r → m.offset < b.length → (more start as).depth ≤ limit →
      Continues t limit fits (more start as) b r
        (OneLeads t.place (fun a => after start (a :: as)) give)
        (Rule.grammar.match? (n - 4) (.rule inner) ⟨b.length, r, m⟩)) :
    Alternative t limit fits s b r (ValueLeads t.place stack) (n + 2) (.rule rule) opening := by
  obtain ⟨hopeningEnd, -⟩ := h.marks opening (.inl rfl)
  obtain ⟨hcloseEnd, -⟩ := h.marks close (.inr rfl)
  have hbody (st : State TokenKind) : Rule.grammar.match? (n + 2) (.rule rule) st =
      (matchAll (Rule.grammar.match? n) [.terminal opening, Rule.separated (.rule inner),
        .terminal close] st).map (Result.wrap rule) := by
    rw [Peg.Grammar.match?, show Rule.grammar.body rule = _ from h.body, Peg.Grammar.match?]
  -- a container whose opening terminal stands is matched; one whose opening does not is given up
  constructor
  · intro m hm
    rw [hbody]
    have hopen : Starts t limit fits s b r [opening] m (TerminalLeads s b r opening)
        (Rule.grammar.match? n (.terminal opening) ⟨b.length, r, m⟩) :=
      starts_terminal hopening hopeningEnd hm fun _ => hn
    refine .wrap (hopen.cons fun s' y r' nodes m' split depth missed goal => ?_)
    obtain ⟨tok, z, hk, rfl, -, hs'⟩ := goal
    obtain rfl := hnext _ _ _ hk hs'
    have ht' : t = (b ++ y) ++ r' := by rw [ht, split, List.append_assoc]
    have htrails := trails_separated (h.separates _) ht' missed (hroom _ depth) (h.expected _)
      h.kinds_ne (hfirst _ _ _ _ ht' missed depth) (he _)
    refine htrails.close ht' hcloseEnd (fun _ => hn) fun nodes s'' c v node s' hnodes hclose => ?_
    exact h.valueLeads (Text.place_leading ht) hnodes hclose
  · intro hmisses m
    obtain ⟨n, rfl⟩ := Nat.exists_eq_succ_of_ne_zero hn.ne'
    rw [hbody, matchAll, Peg.Grammar.match?, matchTerminal_of_not_matches hmisses]
    rfl

end Containers

end Clausal
