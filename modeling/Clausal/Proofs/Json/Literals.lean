import Clausal.Proofs.Json.Grammar
import Mathlib.Tactic.IntervalCases
import Mathlib.Tactic.Lemma

/-!
# Reading numbers and strings

A number or the rest of a string is read at the front of a text exactly if the text starts with a
spelling of it. A number is as long as it can be, so a delimiter has to follow it.
-/

namespace Clausal

/-- The code points that may stand right behind a number or a word. -/
def delimiters : List CodePoint :=
  [.scalar ' ', .scalar '\t', .scalar '\n', .scalar '\r', .scalar ',', .scalar ':', .scalar ']',
    .scalar '\x7d']

/-- The text is empty or starts with a delimiter. -/
def Text.Delimited (t : Text) : Prop := ∀ c t', t = c :: t' → c ∈ delimiters

/-! ### Digits -/

namespace Digit

lemma ofCodePoint?_codePoint : ∀ d : Digit, ofCodePoint? d.codePoint = some d := by decide

lemma ofCodePoint?_eq_some_iff {c : CodePoint} {d : Digit} :
    ofCodePoint? c = some d ↔ c = d.codePoint := by
  constructor
  · intro h
    cases c with
    | surrogate o => simp [ofCodePoint?] at h
    | scalar c =>
      simp only [ofCodePoint?, Option.dite_none_right_eq_some, Option.some.injEq] at h
      obtain ⟨hc, rfl⟩ := h
      simp only [codePoint]
      rw [Nat.add_sub_cancel' hc.1, Char.ofNat_toNat]
  · rintro rfl
    exact ofCodePoint?_codePoint d

lemma codePoint_ne {c : CodePoint} (h : ofCodePoint? c = none) (d : Digit) : d.codePoint ≠ c := by
  rintro rfl
  simp [ofCodePoint?_codePoint] at h

/-- The text does not go on with a digit. -/
def NotAhead (t : Text) : Prop := ∀ d t', t ≠ codePoint d :: t'

lemma notAhead_cons {c : CodePoint} {t : Text} (h : ofCodePoint? c = none) :
    NotAhead (c :: t) := by
  intro d t' ht
  exact codePoint_ne h d (List.cons.inj ht).1.symm

lemma notAhead_of_delimited {t : Text} (h : t.Delimited) : NotAhead t := by
  cases t with
  | nil => nofun
  | cons c t =>
    have : ∀ c ∈ delimiters, ofCodePoint? c = none := by decide
    exact notAhead_cons (this c (h c t rfl))

lemma span_cons (d : Digit) (t : Text) :
    span (d.codePoint :: t) = (d :: (span t).1, (span t).2) := by
  simp [span, ofCodePoint?_codePoint]

lemma span_of_notAhead {t : Text} (h : NotAhead t) : span t = ([], t) := by
  cases t with
  | nil => rfl
  | cons c t =>
    have hc : ofCodePoint? c = none := by
      rw [Option.eq_none_iff_forall_ne_some]
      intro d hd
      exact h d t (by rw [ofCodePoint?_eq_some_iff.mp hd])
    simp [span, hc]

/-- Digits go on as far as digits follow them. -/
lemma span_spelling_append (ds : List Digit) (t : Text) :
    span (spelling ds ++ t) = (ds ++ (span t).1, (span t).2) := by
  induction ds with
  | nil => rfl
  | cons d ds ih =>
    change span (d.codePoint :: (spelling ds ++ t)) = _
    rw [span_cons, ih]
    rfl

lemma eq_append_of_span {t rest : Text} {ds : List Digit} (h : span t = (ds, rest)) :
    t = spelling ds ++ rest := by
  induction t generalizing ds with
  | nil =>
    cases h
    rfl
  | cons c t ih =>
    cases hc : ofCodePoint? c with
    | none =>
      simp only [span, List.takeWhile_cons, List.dropWhile_cons, hc, Option.isSome_none,
        Bool.false_eq_true, if_false, List.filterMap_nil, Prod.mk.injEq] at h
      obtain ⟨rfl, rfl⟩ := h
      rfl
    | some d =>
      obtain rfl := ofCodePoint?_eq_some_iff.mp hc
      rw [span_cons, Prod.mk.injEq] at h
      obtain ⟨rfl, rfl⟩ := h
      exact congrArg _ (ih rfl)

lemma spelling_length (ds : List Digit) : (spelling ds).length = ds.length := List.length_map ..

end Digit

/-! ### Numbers -/

namespace ExponentPart

lemma readSign_eq (t : Text) : ∃ o rest, readSign t = (o, rest) ∧
    t = (o.map fun minus => CodePoint.scalar (if minus then '-' else '+')).toList ++ rest := by
  unfold readSign
  split
  · exact ⟨_, _, rfl, rfl⟩
  · exact ⟨_, _, rfl, rfl⟩
  · exact ⟨_, _, rfl, rfl⟩

lemma eq_append_of_readAfterLetter {upperCase : Bool} {t : Text} {e : ExponentPart}
    (h : readAfterLetter upperCase t = some e) :
    e.upperCase = upperCase ∧ e.digits ≠ [] ∧
      ∃ rest, CodePoint.scalar (if upperCase then 'E' else 'e') :: t = e.spelling ++ rest := by
  obtain ⟨sign, rest, hsign, rfl⟩ := readSign_eq t
  unfold readAfterLetter at h
  rw [hsign] at h
  obtain ⟨ds, rest', hspan⟩ : ∃ ds rest', Digit.span rest = (ds, rest') := ⟨_, _, rfl⟩
  dsimp only at h
  rw [hspan] at h
  -- the letter counts only if digits follow it
  cases ds with
  | nil => cases h
  | cons d ds =>
    cases h
    refine ⟨rfl, List.cons_ne_nil _ _, rest', ?_⟩
    rw [Digit.eq_append_of_span hspan]
    simp [spelling]

lemma eq_append_of_read? {t : Text} {e : ExponentPart} (h : read? t = some e) :
    e.digits ≠ [] ∧ ∃ rest, t = e.spelling ++ rest := by
  unfold read? at h
  split at h
  · exact (eq_append_of_readAfterLetter h).2
  · exact (eq_append_of_readAfterLetter h).2
  · cases h

lemma readSign_append {sign : Option Bool} {d : Digit} {t : Text} :
    readSign ((sign.map fun minus => CodePoint.scalar (if minus then '-' else '+')).toList ++
      d.codePoint :: t) = (sign, d.codePoint :: t) := by
  match sign with
  | some true => rfl
  | some false => rfl
  | none =>
    have hminus := Digit.codePoint_ne (c := .scalar '-') rfl d
    have hplus := Digit.codePoint_ne (c := .scalar '+') rfl d
    change readSign (d.codePoint :: t) = _
    unfold readSign
    split <;> simp_all

/-- An exponent goes on as far as digits follow it. -/
lemma read?_spelling_append {e : ExponentPart} (he : e.digits ≠ []) (t : Text) :
    read? (e.spelling ++ t) = some ⟨e.upperCase, e.sign, e.digits ++ (Digit.span t).1⟩ := by
  obtain ⟨upperCase, sign, digits⟩ := e
  obtain ⟨d, ds, rfl⟩ := List.exists_cons_of_ne_nil he
  have hread : readAfterLetter upperCase ((sign.map fun minus =>
      CodePoint.scalar (if minus then '-' else '+')).toList ++ (Digit.spelling (d :: ds) ++ t)) =
      some ⟨upperCase, sign, d :: ds ++ (Digit.span t).1⟩ := by
    change readAfterLetter upperCase (_ ++ d.codePoint :: (Digit.spelling ds ++ t)) = _
    rw [readAfterLetter, readSign_append]
    dsimp only
    rw [Digit.span_cons, Digit.span_spelling_append]
    rfl
  cases upperCase <;> simpa [spelling, read?] using hread

lemma read?_append {e : ExponentPart} {t : Text} (he : e.digits ≠ []) (ht : Digit.NotAhead t) :
    read? (e.spelling ++ t) = some e := by
  rw [read?_spelling_append he, Digit.span_of_notAhead ht, List.append_nil]

lemma read?_eq_none {t : Text} (h : ∀ c t', t = .scalar c :: t' → c ≠ 'e' ∧ c ≠ 'E') :
    read? t = none := by
  unfold read?
  split
  · exact ((h _ _ rfl).1 rfl).elim
  · exact ((h _ _ rfl).2 rfl).elim
  · rfl

lemma spelling_length (e : ExponentPart) : e.spelling.length = e.length := by
  obtain ⟨upperCase, sign, digits⟩ := e
  cases sign <;> simp [spelling, length, Digit.spelling_length] <;> omega

end ExponentPart

namespace NumberLiteral

lemma IsWhole.exists_cons {ds : List Digit} (h : IsWhole ds) : ∃ d ds', ds = d :: ds' := by
  cases h with
  | zero => exact ⟨0, [], rfl⟩
  | positive ds hd => exact ⟨_, ds, rfl⟩

lemma readWhole_cons_of_ne {c : CodePoint} {t : Text} (h : c ≠ .scalar '0') :
    readWhole (c :: t) = Digit.span (c :: t) := by
  unfold readWhole
  split
  · simp_all
  · rfl

lemma eq_append_of_readWhole {t rest : Text} {ds : List Digit} (h : readWhole t = (ds, rest))
    (hds : ds ≠ []) : IsWhole ds ∧ t = Digit.spelling ds ++ rest := by
  cases t with
  | nil =>
    cases h
    exact (hds rfl).elim
  | cons c t =>
    -- a leading zero stands alone, whatever digits come after it
    by_cases hc : c = .scalar '0'
    · subst hc
      cases h
      exact ⟨.zero, rfl⟩
    · rw [readWhole_cons_of_ne hc] at h
      have ht := Digit.eq_append_of_span h
      obtain ⟨d, ds, rfl⟩ := List.exists_cons_of_ne_nil hds
      refine ⟨.positive ds ?_, ht⟩
      rintro rfl
      exact hc (List.cons.inj ht).1

/-- Digits before the point go on as far as they may. -/
lemma exists_readWhole_append {ds : List Digit} (hds : IsWhole ds) (t : Text) :
    ∃ more rest, readWhole (Digit.spelling ds ++ t) = (ds ++ more, rest) ∧
      (Digit.NotAhead t → more = [] ∧ rest = t) := by
  cases hds with
  -- a zero is never read on; the digits of a positive number may run on into the text
  | zero => exact ⟨[], t, rfl, fun _ => ⟨rfl, rfl⟩⟩
  | @positive d ds hd =>
    have hne : d.codePoint ≠ .scalar '0' := by
      intro h
      have : (0 : Digit).codePoint = .scalar '0' := rfl
      rw [← this] at h
      have := congrArg Digit.ofCodePoint? h
      simp only [Digit.ofCodePoint?_codePoint, Option.some.injEq] at this
      exact hd this
    refine ⟨(Digit.span t).1, (Digit.span t).2, ?_, fun ht => by simp [Digit.span_of_notAhead ht]⟩
    rw [← Digit.span_spelling_append]
    exact readWhole_cons_of_ne hne

lemma readWhole_append {t : Text} {ds : List Digit} (hds : IsWhole ds) (ht : Digit.NotAhead t) :
    readWhole (Digit.spelling ds ++ t) = (ds, t) := by
  obtain ⟨more, rest, hread, hmore⟩ := exists_readWhole_append hds t
  obtain ⟨rfl, rfl⟩ := hmore ht
  rwa [List.append_nil] at hread

lemma eq_append_of_readFraction {t rest : Text} {o : Option (List Digit)}
    (h : readFraction t = (o, rest)) :
    (∀ ds, o = some ds → ds ≠ []) ∧ t = o.elim [] fractionSpelling ++ rest := by
  unfold readFraction at h
  split at h
  · split at h
    · cases h
      simp
    · next hspan =>
      cases h
      refine ⟨fun ds hds => ?_, ?_⟩
      · cases hds
        exact List.cons_ne_nil _ _
      · rw [Digit.eq_append_of_span hspan]
        rfl
  · cases h
    simp

/-- The digits of a fraction go on as far as digits follow them. -/
lemma readFraction_spelling_append {ds : List Digit} (hds : ds ≠ []) (t : Text) :
    readFraction (fractionSpelling ds ++ t) =
      (some (ds ++ (Digit.span t).1), (Digit.span t).2) := by
  obtain ⟨d, ds, rfl⟩ := List.exists_cons_of_ne_nil hds
  change readFraction (.scalar '.' :: (Digit.spelling (d :: ds) ++ t)) = _
  rw [readFraction, Digit.span_spelling_append]
  rfl

lemma readFraction_some {t : Text} {ds : List Digit} (hds : ds ≠ []) (ht : Digit.NotAhead t) :
    readFraction (fractionSpelling ds ++ t) = (some ds, t) := by
  rw [readFraction_spelling_append hds, Digit.span_of_notAhead ht, List.append_nil]

lemma readFraction_none {t : Text} (h : ∀ t', t ≠ .scalar '.' :: t') :
    readFraction t = (none, t) := by
  unfold readFraction
  split
  · exact (h _ rfl).elim
  · rfl

lemma eq_append_of_readUnsigned {negative : Bool} {t : Text} {l : NumberLiteral}
    (h : readUnsigned negative t = some l) :
    l.WellFormed ∧ l.negative = negative ∧
      ∃ rest, t = Digit.spelling l.whole ++ (l.fraction.elim [] fractionSpelling ++
        l.exponent.elim [] ExponentPart.spelling) ++ rest := by
  unfold readUnsigned at h
  obtain ⟨ds, rest, hwhole⟩ : ∃ ds rest, readWhole t = (ds, rest) := ⟨_, _, rfl⟩
  rw [hwhole] at h
  cases ds with
  | nil => cases h
  | cons d ds =>
    -- what is read is taken apart from left to right, and each part names what is left of the text
    obtain ⟨o, rest', hfraction⟩ : ∃ o rest', readFraction rest = (o, rest') := ⟨_, _, rfl⟩
    dsimp only at h
    rw [hfraction] at h
    obtain ⟨hds, rfl⟩ := eq_append_of_readWhole hwhole (List.cons_ne_nil _ _)
    obtain ⟨ho, rfl⟩ := eq_append_of_readFraction hfraction
    cases h
    refine ⟨⟨hds, ho, fun e he => (ExponentPart.eq_append_of_read? he).1⟩, rfl, ?_⟩
    cases hexponent : ExponentPart.read? rest' with
    | none => exact ⟨rest', by simp⟩
    | some e =>
      obtain ⟨-, rest, rfl⟩ := ExponentPart.eq_append_of_read? hexponent
      exact ⟨rest, by simp⟩

/-- What is read as a number is spelled like one. -/
lemma eq_append_of_read? {t : Text} {l : NumberLiteral} (h : read? t = some l) :
    l.WellFormed ∧ ∃ rest, t = l.spelling ++ rest := by
  unfold read? at h
  split at h
  · obtain ⟨hl, hnegative, rest, rfl⟩ := eq_append_of_readUnsigned h
    exact ⟨hl, rest, by simp [spelling, hnegative]⟩
  · obtain ⟨hl, hnegative, rest, rfl⟩ := eq_append_of_readUnsigned h
    exact ⟨hl, rest, by simp [spelling, hnegative]⟩

lemma read?_eq_of_notAhead {negative : Bool} {t t' : Text} (h : ∀ t'', t ≠ .scalar '-' :: t'')
    (ht : t' = (if negative then [.scalar '-'] else []) ++ t) :
    read? t' = readUnsigned negative t := by
  cases negative with
  | true =>
    subst ht
    rfl
  | false =>
    rw [show t' = t from ht]
    unfold read?
    split
    · exact (h _ rfl).elim
    · rfl

lemma readUnsigned_eq {negative : Bool} {t t₁ t₂ : Text} {ds : List Digit}
    {o : Option (List Digit)} (hds : ds ≠ []) (h₁ : readWhole t = (ds, t₁))
    (h₂ : readFraction t₁ = (o, t₂)) :
    readUnsigned negative t = some ⟨negative, ds, o, ExponentPart.read? t₂⟩ := by
  obtain ⟨d, ds, rfl⟩ := List.exists_cons_of_ne_nil hds
  unfold readUnsigned
  rw [h₁]
  dsimp only
  rw [h₂]

lemma read?_spelling_append {l : NumberLiteral} (hl : IsWhole l.whole) (t : Text) :
    read? (l.spelling ++ t) = readUnsigned l.negative
      (Digit.spelling l.whole ++ (l.fraction.elim [] fractionSpelling ++
        (l.exponent.elim [] ExponentPart.spelling ++ t))) := by
  refine read?_eq_of_notAhead (fun t' h => ?_) (by simp [spelling])
  obtain ⟨d, ds, hwhole⟩ := hl.exists_cons
  rw [hwhole] at h
  exact Digit.codePoint_ne rfl d (List.cons.inj h).1

/-- What starts with a number is read as a number that is at least as long. -/
lemma exists_read?_append {l : NumberLiteral} (hl : l.WellFormed) (t : Text) :
    ∃ l', read? (l.spelling ++ t) = some l' ∧ l.length ≤ l'.length := by
  obtain ⟨negative, whole, fraction, exponent⟩ := l
  obtain ⟨hwhole, hfraction, hexponent⟩ := hl
  dsimp only at hwhole hfraction hexponent
  obtain ⟨d, ds, rfl⟩ := hwhole.exists_cons
  rw [read?_spelling_append hwhole]
  dsimp only
  -- the last part of the literal decides what may run on: digits of the exponent, of the fraction
  -- or of the whole
  cases exponent with
  | some e =>
    have hletter :
        Digit.NotAhead (e.spelling ++ t) ∧ ∀ t', e.spelling ++ t ≠ .scalar '.' :: t' := by
      obtain ⟨upperCase, sign, digits⟩ := e
      cases upperCase with
      | true => exact ⟨Digit.notAhead_cons rfl, by simp [ExponentPart.spelling]⟩
      | false => exact ⟨Digit.notAhead_cons rfl, by simp [ExponentPart.spelling]⟩
    have hpoint : readFraction (fraction.elim [] fractionSpelling ++ (e.spelling ++ t)) =
        (fraction, e.spelling ++ t) := by
      cases fraction with
      | none => exact readFraction_none hletter.2
      | some ds => exact readFraction_some (hfraction ds rfl) hletter.1
    have hahead : Digit.NotAhead (fraction.elim [] fractionSpelling ++ (e.spelling ++ t)) := by
      cases fraction with
      | none => exact hletter.1
      | some ds => exact Digit.notAhead_cons rfl
    refine ⟨_, readUnsigned_eq (List.cons_ne_nil d ds) (readWhole_append hwhole hahead) hpoint, ?_⟩
    have hread := ExponentPart.read?_spelling_append (hexponent e rfl) t
    simp [length, wholeLength, hread, ExponentPart.length]
  | none =>
    cases fraction with
    | some places =>
      have hahead : Digit.NotAhead (fractionSpelling places ++ t) := Digit.notAhead_cons rfl
      refine ⟨_, readUnsigned_eq (List.cons_ne_nil d ds) (readWhole_append hwhole hahead)
        (readFraction_spelling_append (hfraction places rfl) t), ?_⟩
      simp [length, wholeLength]
      omega
    | none =>
      -- digits behind a bare whole number make it longer, a point or letter behind it likewise
      obtain ⟨more, rest, hread, -⟩ := exists_readWhole_append hwhole t
      refine ⟨_, readUnsigned_eq (List.cons_ne_nil d (ds ++ more)) hread rfl, ?_⟩
      simp [length, wholeLength]
      omega

/-- What is spelled like a number is read as that number, if a delimiter follows. -/
lemma read?_append {l : NumberLiteral} {t : Text} (hl : l.WellFormed) (ht : t.Delimited) :
    read? (l.spelling ++ t) = some l := by
  obtain ⟨negative, whole, fraction, exponent⟩ := l
  obtain ⟨hwhole, hfraction, hexponent⟩ := hl
  dsimp only at hwhole hfraction hexponent
  have hdigit := Digit.notAhead_of_delimited ht
  have hdelimiter (c : CodePoint) (hc : c ∉ delimiters) (t' : Text) : t ≠ c :: t' :=
    fun h => hc (ht c t' h)
  have hread : ExponentPart.read? (exponent.elim [] ExponentPart.spelling ++ t) = exponent := by
    cases exponent with
    | none =>
      refine ExponentPart.read?_eq_none fun c t' h => ⟨?_, ?_⟩
      · rintro rfl
        exact hdelimiter _ (by decide) t' h
      · rintro rfl
        exact hdelimiter _ (by decide) t' h
    | some e => exact ExponentPart.read?_append (hexponent e rfl) hdigit
  have hletter (c : CodePoint) (hc : c ∉ delimiters) (he : c ≠ .scalar 'e') (hE : c ≠ .scalar 'E')
      (t' : Text) : exponent.elim [] ExponentPart.spelling ++ t ≠ c :: t' := by
    cases exponent with
    | none => exact hdelimiter c hc t'
    | some e =>
      intro h
      have := (List.cons.inj h).1
      split at this
      · exact hE this.symm
      · exact he this.symm
  have hbehind : Digit.NotAhead (exponent.elim [] ExponentPart.spelling ++ t) := by
    intro d t'
    refine hletter d.codePoint ?_ (Digit.codePoint_ne rfl d) (Digit.codePoint_ne rfl d) t'
    revert d
    decide
  have hpoint : readFraction (fraction.elim [] fractionSpelling ++
      (exponent.elim [] ExponentPart.spelling ++ t)) =
      (fraction, exponent.elim [] ExponentPart.spelling ++ t) := by
    cases fraction with
    | none => exact readFraction_none (hletter _ (by decide) (by decide) (by decide))
    | some ds => exact readFraction_some (hfraction ds rfl) hbehind
  have hahead : Digit.NotAhead (fraction.elim [] fractionSpelling ++
      (exponent.elim [] ExponentPart.spelling ++ t)) := by
    cases fraction with
    | none => exact hbehind
    | some ds => exact Digit.notAhead_cons rfl
  have hne : whole ≠ [] := by
    obtain ⟨d, ds, rfl⟩ := hwhole.exists_cons
    exact List.cons_ne_nil d ds
  rw [read?_spelling_append hwhole, readUnsigned_eq hne (readWhole_append hwhole hahead) hpoint,
    hread]

lemma spelling_length (l : NumberLiteral) : l.spelling.length = l.length := by
  obtain ⟨negative, whole, fraction, exponent⟩ := l
  cases negative <;> cases fraction <;> cases exponent <;>
    simp [spelling, length, wholeLength, fractionSpelling, Digit.spelling_length,
      ExponentPart.spelling_length] <;> omega

end NumberLiteral
/-! ### Strings -/

lemma HexDigit.hexValue? {c : CodePoint} {n : Nat} (h : HexDigit c n) :
    StringPart.hexValue? c = some n := by
  obtain ⟨hn, d, rfl, hd⟩ := h
  interval_cases n <;> rcases hd with hd | hd <;> cases hd <;> rfl

lemma hexDigit_of_hexValue? {c : CodePoint} {n : Nat} (h : StringPart.hexValue? c = some n) :
    HexDigit c n := by
  cases c with
  | surrogate o => cases h
  | scalar d =>
    have hd : d = Char.ofNat d.toNat := (Char.ofNat_toNat d).symm
    simp only [StringPart.hexValue?, Char.le_def, UInt32.le_iff_toNat_le] at h
    change (if 48 ≤ d.toNat ∧ d.toNat ≤ 57 then some (d.toNat - 48) else
      if 97 ≤ d.toNat ∧ d.toNat ≤ 102 then some (d.toNat - 87) else
      if 65 ≤ d.toNat ∧ d.toNat ≤ 70 then some (d.toNat - 55) else none) = some n at h
    unfold HexDigit
    rw [hd]
    -- the three ranges of digits and letters, each by its numbers
    generalize d.toNat = m at h
    split at h
    · next hm =>
      cases h
      obtain ⟨_, _⟩ := hm
      refine ⟨by omega, Char.ofNat m, rfl, .inl ?_⟩
      interval_cases m <;> rfl
    · split at h
      · next hm =>
        cases h
        obtain ⟨_, _⟩ := hm
        refine ⟨by omega, Char.ofNat m, rfl, .inl ?_⟩
        interval_cases m <;> rfl
      · split at h
        · next hm =>
          cases h
          obtain ⟨_, _⟩ := hm
          refine ⟨by omega, Char.ofNat m, rfl, .inr ?_⟩
          interval_cases m <;> rfl
        · cases h

namespace StringPart

lemma spelled_of_ofHex? {a b c d : CodePoint} {p : StringPart} (h : ofHex? a b c d = some p) :
    p.Spelled [.scalar '\\', .scalar 'u', a, b, c, d] := by
  simp only [ofHex?, bind, Option.bind_eq_some_iff, pure, Option.some.injEq] at h
  obtain ⟨i, hi, j, hj, k, hk, l, hl, rfl⟩ := h
  exact .unit (hexDigit_of_hexValue? hi) (hexDigit_of_hexValue? hj) (hexDigit_of_hexValue? hk)
    (hexDigit_of_hexValue? hl)

lemma spelled_of_escape? {c : CodePoint} {d : Char} (h : escape? c = some d) :
    (point (.scalar d)).Spelled [.scalar '\\', c] := by
  unfold escape? at h
  split at h <;> cases h <;> exact .short (by decide)

/-- What is read as the rest of a string is spelled like one. -/
lemma eq_append_of_read? {before ps : List StringPart} {count n : Nat} {t : Text}
    (h : read? before count t = some (ps, n)) :
    ∃ qs body rest, AllSpelled qs body ∧ ps = before.reverse ++ qs ∧
      t = body ++ .scalar '\x22' :: rest ∧ n = count + body.length + 1 := by
  -- one step reads the part `p` spelled `s`, and the rest follows by induction
  have step {before : List StringPart} {p : StringPart} {s t : Text} {count : Nat}
      (hp : p.Spelled s) (ih : ∃ qs body rest, AllSpelled qs body ∧
        ps = (p :: before).reverse ++ qs ∧ t = body ++ .scalar '\x22' :: rest ∧
        n = count + s.length + body.length + 1) :
      ∃ qs body rest, AllSpelled qs body ∧ ps = before.reverse ++ qs ∧
        s ++ t = body ++ .scalar '\x22' :: rest ∧ n = count + body.length + 1 := by
    obtain ⟨qs, body, rest, hqs, rfl, rfl, rfl⟩ := ih
    exact ⟨p :: qs, s ++ body, rest, .cons hp hqs, by simp, by simp, by simp [Nat.add_assoc]⟩
  fun_induction read? before count t with
  | case1 before count rest =>
    cases h
    exact ⟨[], [], rest, .nil, by simp, rfl, rfl⟩
  | case2 before count a b c d rest p hp ih => exact step (spelled_of_ofHex? hp) (ih h)
  | case3 => cases h
  | case4 before count c rest hc d hd ih => exact step (spelled_of_escape? hd) (ih h)
  | case5 => cases h
  | case6 before count c rest hquote hunit hshort hplain ih =>
    refine step (.plain (by simpa [isPlain] using hplain) hquote fun hc => ?_) (ih h)
    cases rest with
    | nil => cases h
    | cons d rest => exact hshort d rest hc rfl
  | case7 => cases h
  | case8 => cases h

lemma ofHex?_eq_some {a b c d : CodePoint} {i j k l : Nat} (ha : HexDigit a i) (hb : HexDigit b j)
    (hc : HexDigit c k) (hd : HexDigit d l) :
    ofHex? a b c d = some (.unit (UInt16.ofNat (((i * 16 + j) * 16 + k) * 16 + l))) := by
  simp [ofHex?, ha.hexValue?, hb.hexValue?, hc.hexValue?, hd.hexValue?]

lemma read?_append_of_spelled {p : StringPart} {s : Text} (h : p.Spelled s)
    (before : List StringPart) (count : Nat) (t : Text) :
    read? before count (s ++ t) = read? (p :: before) (count + s.length) t := by
  cases h with
  | @plain c hcontrol hquote hbackslash =>
    have hplain : isPlain c = true := by simpa [isPlain] using hcontrol
    change read? before count (c :: t) = _
    rw [read?]
    · rw [if_pos hplain]
      rfl
    · exact hquote
    · exact fun _ _ _ _ _ hc _ => hbackslash hc
    · exact fun _ _ hc _ => hbackslash hc
  | @short letter c hmem =>
    -- eight letters, each with its own control character
    simp only [shortEscapes, List.mem_cons, List.not_mem_nil, Prod.mk.injEq, or_false] at hmem
    rcases hmem with ⟨rfl, rfl⟩ | ⟨rfl, rfl⟩ | ⟨rfl, rfl⟩ | ⟨rfl, rfl⟩ | ⟨rfl, rfl⟩ | ⟨rfl, rfl⟩ |
      ⟨rfl, rfl⟩ | ⟨rfl, rfl⟩ <;> rfl
  | unit ha hb hc hd =>
    change read? before count (.scalar '\\' :: .scalar 'u' :: _ :: _ :: _ :: _ :: t) = _
    rw [read?, ofHex?_eq_some ha hb hc hd]
    rfl

/-- What is spelled like the rest of a string is read as that string. -/
lemma read?_append {ps : List StringPart} {body : Text} (h : AllSpelled ps body)
    (before : List StringPart) (count : Nat) (t : Text) :
    read? before count (body ++ .scalar '\x22' :: t) =
      some (before.reverse ++ ps, count + body.length + 1) := by
  induction h generalizing before count with
  | nil => simp [read?]
  | cons head tail ih =>
    rw [List.append_assoc, read?_append_of_spelled head, ih]
    simp [Nat.add_assoc]

/-! ### What strings denote -/

lemma ofPair?_eq_some {u v : UInt16} (hu : HighSurrogate u) (hv : LowSurrogate v) :
    ofPair? u v =
      some (Char.ofNat (0x10000 + (u.toNat - 0xd800) * 0x400 + (v.toNat - 0xdc00))) :=
  if_pos ⟨hu.1, hu.2, hv.1, hv.2⟩

lemma ofPair?_eq_none {u v : UInt16} (h : HighSurrogate u → ¬LowSurrogate v) :
    ofPair? u v = none := by
  refine if_neg fun ⟨h₁, h₂, h₃, h₄⟩ => h ⟨h₁, h₂⟩ ⟨h₃, h₄⟩

/-- A unit that forms no pair with what follows stands for itself. -/
lemma textFrom_lone {u : UInt16} {ps : List StringPart} {before : Text}
    (h : HighSurrogate u → ∀ v qs, ps = .unit v :: qs → ¬LowSurrogate v) :
    textFrom before (.unit u :: ps) = textFrom (.ofUnit u :: before) ps := by
  match ps with
  | [] => rfl
  | .point c :: ps => rfl
  | .unit v :: ps => rw [textFrom, ofPair?_eq_none fun hu => h hu v ps rfl]

lemma Denote.textFrom_eq {ps : List StringPart} {t : Text} (h : Denote ps t) (before : Text) :
    textFrom before ps = before.reverse ++ t := by
  induction h generalizing before with
  | nil => simp [textFrom]
  | point tail ih => simp [textFrom, ih]
  | pair hu hv tail ih => simp [textFrom, ofPair?_eq_some hu hv, ih]
  | lone hlone tail ih => simp [textFrom_lone hlone, ih]

lemma exists_denote (ps : List StringPart) : ∃ t, Denote ps t := by
  match ps with
  | [] => exact ⟨_, .nil⟩
  | .point c :: ps =>
    obtain ⟨t, h⟩ := exists_denote ps
    exact ⟨_, .point h⟩
  | .unit u :: ps =>
    -- two units make one code point only if they are a high and a low surrogate in this order
    by_cases hpair : HighSurrogate u ∧ ∃ v qs, ps = .unit v :: qs ∧ LowSurrogate v
    · obtain ⟨hu, v, qs, rfl, hv⟩ := hpair
      obtain ⟨t, h⟩ := exists_denote qs
      exact ⟨_, .pair hu hv h⟩
    · obtain ⟨t, h⟩ := exists_denote ps
      exact ⟨_, .lone (fun hu v qs hps hv => hpair ⟨hu, v, qs, hps, hv⟩) h⟩

/-- Parts denote a text, and no other. -/
lemma denote_iff {ps : List StringPart} {t : Text} : Denote ps t ↔ text ps = t := by
  constructor
  · exact fun h => h.textFrom_eq []
  · rintro rfl
    obtain ⟨t, h⟩ := exists_denote ps
    rwa [text, h.textFrom_eq []]

end StringPart

end Clausal
