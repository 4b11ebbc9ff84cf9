import Clausal.Proofs.Json.Literals

/-!
# Reading tokens

A token is read at the front of a text exactly if the text starts with a spelling of it, and at most
one kind of token fits there. A text made of tokens is cut into them without regard to what they
mean.
-/

namespace Clausal

namespace Token

/-- How a token is spelled. -/
def Spelled : Token → Text → Prop
  | openBrace, s => s = [.scalar '\x7b']
  | closeBrace, s => s = [.scalar '\x7d']
  | openBracket, s => s = [.scalar '[']
  | closeBracket, s => s = [.scalar ']']
  | colon, s => s = [.scalar ':']
  | comma, s => s = [.scalar ',']
  | string t, s => t.Quoted s
  | number l, s => l.WellFormed ∧ s = l.spelling
  | .true, s => s = Text.ofChars ['t', 'r', 'u', 'e']
  | .false, s => s = Text.ofChars ['f', 'a', 'l', 's', 'e']
  | null, s => s = Text.ofChars ['n', 'u', 'l', 'l']

/-- Whether a token may go on with what follows it, so that a delimiter has to end it. -/
def isOpenEnded : Token → Prop
  | number _ | .true | .false | null => True
  | _ => False

/-- The kind of the tokens that start with a code point. -/
def kindAt? (c : CodePoint) : Option TokenKind :=
  if c = .scalar '\x7b' then some .openBrace
  else if c = .scalar '\x7d' then some .closeBrace
  else if c = .scalar '[' then some .openBracket
  else if c = .scalar ']' then some .closeBracket
  else if c = .scalar ':' then some .colon
  else if c = .scalar ',' then some .comma
  else if c = .scalar '\x22' then some .string
  else if c = .scalar '-' ∨ (Digit.ofCodePoint? c).isSome then some .number
  else if c = .scalar 't' then some .true
  else if c = .scalar 'f' then some .false
  else if c = .scalar 'n' then some .null
  else none

/-- The first code point of a token tells its kind. -/
lemma Spelled.exists_cons {tok : Token} {s : Text} (h : tok.Spelled s) :
    ∃ c s', s = c :: s' ∧ kindAt? c = some tok.kind := by
  cases tok with
  | string t =>
    obtain ⟨ps, body, -, -, rfl⟩ := h
    exact ⟨_, _, rfl, rfl⟩
  | number l =>
    obtain ⟨hl, rfl⟩ := h
    obtain ⟨negative, whole, fraction, exponent⟩ := l
    cases negative with
    | true => exact ⟨_, _, rfl, rfl⟩
    | false =>
      obtain ⟨d, ds, rfl⟩ : ∃ d ds, whole = d :: ds := hl.whole.exists_cons
      have hdigit : ∀ d : Digit, kindAt? d.codePoint = some .number := by decide
      exact ⟨d.codePoint, _, rfl, hdigit d⟩
  | _ =>
    cases h
    exact ⟨_, _, rfl, rfl⟩

lemma readMark?_eq_some {mark : Char} {tok tok' : Token} {t : Text} {n : Nat}
    (h : readMark? mark tok t = some (tok', n)) :
    tok' = tok ∧ n = 1 ∧ ∃ rest, t = .scalar mark :: rest := by
  unfold readMark? at h
  split at h
  · next hhead =>
    cases h
    cases t with
    | nil => cases hhead
    | cons c rest =>
      cases hhead
      exact ⟨rfl, rfl, rest, rfl⟩
  · cases h

lemma readWord?_eq_some {word : List Char} {tok tok' : Token} {t : Text} {n : Nat}
    (h : readWord? word tok t = some (tok', n)) :
    tok' = tok ∧ n = word.length ∧ ∃ rest, t = Text.ofChars word ++ rest := by
  unfold readWord? at h
  split at h
  · next hword =>
    cases h
    rw [startsWithWord, Bool.and_eq_true, List.isPrefixOf_iff_prefix] at hword
    obtain ⟨rest, hrest⟩ := hword.1
    exact ⟨rfl, rfl, rest, hrest.symm⟩
  · cases h

lemma exists_cons_of_readString {t : Text} {r : Token × Nat} (h : read? .string t = some r) :
    ∃ t', t = .scalar '\x22' :: t' := by
  cases t with
  | nil => cases h
  | cons c t =>
    by_cases hc : c = .scalar '\x22'
    · exact ⟨t, by rw [hc]⟩
    · rw [read?] at h
      · cases h
      · exact fun _ ht => hc (List.cons.inj ht).1

/-- What is read as a token is spelled like one. -/
lemma spelled_of_read? {k : TokenKind} {t : Text} {tok : Token} {n : Nat}
    (h : read? k t = some (tok, n)) :
    tok.kind = k ∧ ∃ s rest, t = s ++ rest ∧ s.length = n ∧ tok.Spelled s := by
  -- marks and words are read by comparison, numbers and strings by a reader that says what it took
  cases k with
  | openBrace | closeBrace | openBracket | closeBracket | colon | comma =>
    obtain ⟨rfl, rfl, rest, rfl⟩ := readMark?_eq_some h
    exact ⟨rfl, _, rest, rfl, rfl, rfl⟩
  | true | false | null =>
    obtain ⟨rfl, rfl, rest, rfl⟩ := readWord?_eq_some h
    exact ⟨rfl, _, rest, rfl, rfl, rfl⟩
  | number =>
    obtain ⟨l, hl, hn⟩ := Option.map_eq_some_iff.mp h
    cases hn
    obtain ⟨hwf, rest, rfl⟩ := NumberLiteral.eq_append_of_read? hl
    exact ⟨rfl, _, rest, rfl, l.spelling_length, hwf, rfl⟩
  | string =>
    obtain ⟨t, rfl⟩ := exists_cons_of_readString h
    rw [read?] at h
    obtain ⟨⟨ps, n⟩, hread, hn⟩ := Option.map_eq_some_iff.mp h
    cases hn
    obtain ⟨qs, body, rest, hqs, hps, rfl, rfl⟩ := StringPart.eq_append_of_read? hread
    obtain rfl : ps = qs := hps
    refine ⟨rfl, _, rest, ?_, ?_, ps, body, hqs, StringPart.denote_iff.mpr rfl, rfl⟩
    · simp
    · simp
      omega
  | endOfText => cases h

lemma readWord?_append {word : List Char} {tok : Token} {t : Text}
    (ht : endsWord t = Bool.true) :
    readWord? word tok (Text.ofChars word ++ t) = some (tok, word.length) := by
  have hdrop : (Text.ofChars word ++ t).drop word.length = t := by
    have hlength : (Text.ofChars word).length = word.length := List.length_map _
    rw [← hlength]
    exact List.drop_left
  have hword : startsWithWord word (Text.ofChars word ++ t) = Bool.true := by
    rw [startsWithWord, hdrop, ht, Bool.and_true, List.isPrefixOf_iff_prefix]
    exact List.prefix_append _ _
  rw [readWord?, if_pos hword]

lemma endsWord_of_readWord? {word : List Char} {tok : Token} {t : Text} {r : Token × Nat}
    (h : readWord? word tok (Text.ofChars word ++ t) = some r) : endsWord t = Bool.true := by
  have hlength : word.length = (Text.ofChars word).length := (List.length_map _).symm
  unfold readWord? at h
  split at h
  · next hword =>
    rw [startsWithWord, Bool.and_eq_true, hlength, List.drop_left] at hword
    exact hword.2
  · cases h

lemma endsWord_of_delimited {t : Text} (ht : t.Delimited) : endsWord t = Bool.true := by
  cases t with
  | nil => rfl
  | cons c t =>
    have hword : ∀ c ∈ delimiters, endsWord [c] = Bool.true := by decide
    have hhead : endsWord (c :: t) = endsWord [c] := by cases c <;> rfl
    rw [hhead, hword c (ht c t rfl)]

/-- What is spelled like a token is read as that token. -/
lemma read?_append {tok : Token} {s t : Text} (h : tok.Spelled s)
    (ht : tok.isOpenEnded → t.Delimited) : read? tok.kind (s ++ t) = some (tok, s.length) := by
  -- words and numbers end only where the text after them is no part of them
  cases tok with
  | openBrace | closeBrace | openBracket | closeBracket | colon | comma =>
    cases h
    rfl
  | true | false | null =>
    cases h
    exact readWord?_append (endsWord_of_delimited (ht trivial))
  | number l =>
    obtain ⟨hl, rfl⟩ := h
    change (NumberLiteral.read? _).map _ = _
    rw [NumberLiteral.read?_append hl (ht trivial), Option.map_some, l.spelling_length]
  | string k =>
    obtain ⟨ps, body, hbody, hk, rfl⟩ := h
    have hread := StringPart.read?_append hbody [] 1 t
    have happend : .scalar '\x22' :: body ++ [.scalar '\x22'] ++ t =
        CodePoint.scalar '\x22' :: (body ++ .scalar '\x22' :: t) := by simp
    change read? .string _ = _
    rw [happend, read?, hread]
    simp [StringPart.denote_iff.mp hk]
    omega

/-- The token at the front of a text that is of the first fitting kind. -/
def readAny? (kinds : List TokenKind) (t : Text) : Option (Token × Nat) :=
  kinds.findSome? fun k => read? k t

/-- Tokens of different kinds start differently, so the order of kinds does not matter. -/
lemma readAny?_eq_some_iff {kinds : List TokenKind} {t : Text} {tok : Token} {n : Nat} :
    readAny? kinds t = some (tok, n) ↔ tok.kind ∈ kinds ∧ read? tok.kind t = some (tok, n) := by
  -- the first character tells the kind, so at most one kind of token can be read
  have hunique {k k' : TokenKind} {r r' : Token × Nat} (h : read? k t = some r)
      (h' : read? k' t = some r') : k = k' := by
    obtain ⟨rfl, s, rest, ht, -, hs⟩ := spelled_of_read? h
    obtain ⟨rfl, s', rest', ht', -, hs'⟩ := spelled_of_read? h'
    obtain ⟨c, s, rfl, hc⟩ := hs.exists_cons
    obtain ⟨c', s', rfl, hc'⟩ := hs'.exists_cons
    rw [ht] at ht'
    obtain rfl := (List.cons.inj ht').1
    exact Option.some.inj (hc.symm.trans hc')
  constructor
  · intro h
    obtain ⟨k, hk, hread⟩ := List.exists_of_findSome?_eq_some h
    obtain rfl := (spelled_of_read? hread).1
    exact ⟨hk, hread⟩
  · rintro ⟨hk, hread⟩
    cases h : readAny? kinds t with
    | none =>
      have := List.findSome?_eq_none_iff.mp h _ hk
      rw [hread] at this
      cases this
    | some r =>
      obtain ⟨k', -, hread'⟩ := List.exists_of_findSome?_eq_some h
      obtain rfl := hunique hread hread'
      rw [← hread, ← hread']

/-! ### Sequences of tokens -/

/-- Tokens one after the other, with white space around them. -/
inductive AllSpelled : List Token → Text → Prop
  | nil {w : Text} (gap : w.Gap) : AllSpelled [] w
  | cons {tok : Token} {toks : List Token} {w s t : Text} (gap : w.Gap) (head : tok.Spelled s)
      (tail : AllSpelled toks t) : AllSpelled (tok :: toks) (w ++ (s ++ t))

lemma gap_append {w w' : Text} (h : w.Gap) (h' : w'.Gap) : (w ++ w').Gap := by
  intro c hc
  rcases List.mem_append.mp hc with hc | hc
  · exact h c hc
  · exact h' c hc

lemma Spelled.allSpelled {tok : Token} {s : Text} (h : tok.Spelled s) : AllSpelled [tok] s := by
  have := AllSpelled.cons (w := []) nofun h (.nil (w := []) nofun)
  simpa using this

namespace AllSpelled

lemma gap_cons {toks : List Token} {w t : Text} (hw : w.Gap) (h : AllSpelled toks t) :
    AllSpelled toks (w ++ t) := by
  cases h with
  | nil gap => exact .nil (gap_append hw gap)
  | cons gap head tail =>
    rw [← List.append_assoc]
    exact .cons (gap_append hw gap) head tail

lemma append {toks toks' : List Token} {t t' : Text} (h : AllSpelled toks t)
    (h' : AllSpelled toks' t') : AllSpelled (toks ++ toks') (t ++ t') := by
  induction h with
  | nil gap => exact h'.gap_cons gap
  | cons gap head tail ih =>
    rw [List.append_assoc, List.append_assoc]
    exact .cons gap head ih

lemma append_gap {toks : List Token} {t w : Text} (h : AllSpelled toks t) (hw : w.Gap) :
    AllSpelled toks (t ++ w) := by
  simpa using h.append (.nil hw)

/-- A text made of tokens can be cut between any two of them. -/
lemma exists_append {toks toks' : List Token} {t : Text} (h : AllSpelled (toks ++ toks') t) :
    ∃ s s', t = s ++ s' ∧ AllSpelled toks s ∧ AllSpelled toks' s' := by
  induction toks generalizing t with
  | nil => exact ⟨[], t, rfl, .nil nofun, h⟩
  | cons tok toks ih =>
    cases h with
    | cons gap head tail =>
      obtain ⟨s, s', rfl, hs, hs'⟩ := ih tail
      exact ⟨_, s', by simp only [List.append_assoc], .cons gap head hs, hs'⟩

lemma exists_cons {tok : Token} {toks : List Token} {t : Text} (h : AllSpelled (tok :: toks) t) :
    ∃ w s t', t = w ++ (s ++ t') ∧ w.Gap ∧ tok.Spelled s ∧ AllSpelled toks t' := by
  cases h with
  | cons gap head tail => exact ⟨_, _, _, rfl, gap, head, tail⟩

lemma gap {t : Text} (h : AllSpelled [] t) : t.Gap := by
  cases h with
  | nil gap => exact gap

end AllSpelled

end Token

end Clausal
