import Clausal.Proofs.Json.Tidy

/-!
# Written texts denote what was written

The text of a tidy value is a JSON text that denotes the value, in every layout that puts a comma
between items and a colon behind names. Characters that are escaped by number are written as one
16-bit unit or as the two units of a surrogate pair.
-/

namespace Clausal

/-! ### Integers -/

lemma Digit.codePoint_ofNat {n : Nat} (h : n < 10) :
    codePoint ⟨n, h⟩ = .scalar n.digitChar := by
  have : ∀ d : Digit, codePoint d = .scalar d.val.digitChar := by decide
  exact this ⟨n, h⟩

/-- The decimal digits of a number, without leading zeros. -/
lemma exists_decimal (n : Nat) : ∃ ds : List Digit,
    NumberLiteral.IsWhole ds ∧ Nat.ofDigits 10 (ds.reverse.map Fin.val) = n ∧
      Digit.spelling ds = Text.ofChars (Nat.toDigits 10 n) := by
  -- on the number, whose last digit is split off
  induction n using Nat.strongRecOn with
  | ind n ih =>
    by_cases hn : n < 10
    · refine ⟨[⟨n, hn⟩], ?_, by simp, ?_⟩
      · by_cases h₀ : n = 0
        · subst h₀
          exact .zero
        · exact .positive [] (by simpa [Fin.ext_iff] using h₀)
      · rw [Nat.toDigits_of_lt_base hn]
        simp [Digit.spelling, Digit.codePoint_ofNat, Text.ofChars]
    · obtain ⟨ds, hhead, hvalue, hspelling⟩ := ih (n / 10) (by omega)
      have hmod : n % 10 < 10 := Nat.mod_lt _ (by decide)
      refine ⟨ds ++ [⟨n % 10, hmod⟩], ?_, ?_, ?_⟩
      · cases hhead with
        | zero =>
          simp at hvalue
          omega
        | positive ds hd => exact .positive _ hd
      · rw [List.reverse_append, List.map_append, Nat.ofDigits_append, hvalue]
        simp
        omega
      · rw [Nat.toDigits_eq_if (by decide), if_neg hn, Text.ofChars_append, ← hspelling]
        simp [Digit.spelling, Digit.codePoint_ofNat, Text.ofChars]

lemma Text.ofInt_eq (n : Int) : ofInt n =
    (if n < 0 then [.scalar '-'] else []) ++ ofChars (Nat.toDigits 10 n.natAbs) := by
  have hstring : ofInt n = ofString n.repr := rfl
  rw [hstring, Int.repr_eq_if]
  by_cases hn : n < 0
  · have habs : (-n).toNat = n.natAbs := by omega
    rw [if_neg (by omega), if_pos hn, habs, ofString, Nat.repr_eq_ofList_toDigits]
    simp only [String.toList_append, String.toList_ofList, ofChars_append]
    rfl
  · have habs : n.toNat = n.natAbs := by omega
    rw [if_pos (by omega), if_neg hn, habs, ofString, Nat.repr_eq_ofList_toDigits,
      String.toList_ofList, List.nil_append]

lemma Json.spelled_int (n : Int) : Spelled (.int n) (Text.ofInt n) := by
  obtain ⟨ds, hhead, hvalue, hspelling⟩ := exists_decimal n.natAbs
  let l : NumberLiteral := ⟨decide (n < 0), ds, none, none⟩
  have hjson : l.json = .int n := by
    simp only [NumberLiteral.json, l, hvalue, and_self, if_true, decide_eq_true_eq, int.injEq]
    split <;> omega
  have hl : l.spelling = Text.ofInt n := by
    simp [NumberLiteral.spelling, l, Text.ofInt_eq, hspelling]
  rw [← hjson, ← hl]
  exact .number ⟨hhead, by simp, by simp⟩

/-! ### Strings -/

lemma hexDigit_spelled {n : Nat} (h : n < 16) : HexDigit (.scalar (hexDigit n)) n := by
  have : ∀ n : Fin 16, "0123456789abcdef".toList[n.val]? = some (hexDigit n) := by decide
  exact ⟨h, _, rfl, .inl (this ⟨n, h⟩)⟩

namespace StringPart

lemma unitEscape_eq (n : Nat) : Json.unitEscape n = [.scalar '\\', .scalar 'u',
    .scalar (hexDigit (n / 16 / 16 / 16 % 16)), .scalar (hexDigit (n / 16 / 16 % 16)),
    .scalar (hexDigit (n / 16 % 16)), .scalar (hexDigit (n % 16))] := rfl

lemma spelled_unitEscape {n : Nat} (h : n < 0x10000) :
    Spelled (.unit (UInt16.ofNat n)) (Json.unitEscape n) := by
  have hmod (k : Nat) : k % 16 < 16 := Nat.mod_lt _ (by decide)
  have hn : ((n / 16 / 16 / 16 % 16 * 16 + n / 16 / 16 % 16) * 16 + n / 16 % 16) * 16 + n % 16 =
      n := by omega
  have hspelled := Spelled.unit (hexDigit_spelled (hmod (n / 16 / 16 / 16)))
    (hexDigit_spelled (hmod (n / 16 / 16))) (hexDigit_spelled (hmod (n / 16)))
    (hexDigit_spelled (hmod n))
  rw [hn] at hspelled
  rw [unitEscape_eq]
  exact hspelled

/-- The parts spell a text that denotes one character, whatever follows. -/
def Write (ps : List StringPart) (s : Text) (c : Char) : Prop :=
  AllSpelled ps s ∧ ∀ qs t, Denote qs t → Denote (ps ++ qs) (.scalar c :: t)

lemma write_point {c : Char} {s : Text} (h : Spelled (.point (.scalar c)) s) :
    Write [.point (.scalar c)] s c :=
  ⟨by simpa using AllSpelled.cons h .nil, fun _ _ => .point⟩

lemma write_short (letter c : Char) (h : (letter, c) ∈ shortEscapes) :
    Write [.point (.scalar c)] [.scalar '\\', .scalar letter] c := write_point (.short h)

lemma toNat_ofNat_of_lt {n : Nat} (h : n < 0x10000) : (UInt16.ofNat n).toNat = n := by
  rw [UInt16.toNat_ofNat']
  omega

lemma highSurrogate_iff {u : UInt16} :
    HighSurrogate u ↔ 0xd800 ≤ u.toNat ∧ u.toNat < 0xdc00 := Iff.rfl

lemma lowSurrogate_iff {u : UInt16} : LowSurrogate u ↔ 0xdc00 ≤ u.toNat ∧ u.toNat < 0xe000 :=
  Iff.rfl

/-- The units of a surrogate pair denote the character with the bits that they hold. -/
lemma denote_pair {n a b : Nat} (ha : a < 0x400) (hb : b < 0x400)
    (hn : n = 0x10000 + a * 0x400 + b) {qs : List StringPart} {t : Text} (hqs : Denote qs t) :
    Denote (.unit (UInt16.ofNat (0xd800 + a)) :: .unit (UInt16.ofNat (0xdc00 + b)) :: qs)
      (.scalar (Char.ofNat n) :: t) := by
  -- the two halves of the number fit into ten bits each
  have hu : (UInt16.ofNat (0xd800 + a)).toNat = 0xd800 + a := toNat_ofNat_of_lt (by omega)
  have hv : (UInt16.ofNat (0xdc00 + b)).toNat = 0xdc00 + b := toNat_ofNat_of_lt (by omega)
  have hhigh : HighSurrogate (UInt16.ofNat (0xd800 + a)) := by
    rw [highSurrogate_iff, hu]
    omega
  have hlow : LowSurrogate (UInt16.ofNat (0xdc00 + b)) := by
    rw [lowSurrogate_iff, hv]
    omega
  have hpair := Denote.pair hhigh hlow hqs
  rwa [hu, hv, Nat.add_sub_cancel_left, Nat.add_sub_cancel_left, ← hn] at hpair

lemma exists_write_unitEscapes (c : Char) : ∃ ps, Write ps (Json.unitEscapes c.toNat) c := by
  have hc : c.toNat < 0xd800 ∨ 0xdfff < c.toNat ∧ c.toNat < 0x110000 := c.valid
  unfold Json.unitEscapes
  -- below the first surrogate pair one unit is enough
  split
  · next h =>
    have hu := toNat_ofNat_of_lt h
    have hunit : CodePoint.ofUnit (UInt16.ofNat c.toNat) = .scalar c := by
      rw [CodePoint.ofUnit, dif_neg (by omega), hu, Char.ofNat_toNat]
    refine ⟨[.unit (UInt16.ofNat c.toNat)], ?_, fun qs t hqs => ?_⟩
    · simpa using AllSpelled.cons (spelled_unitEscape h) .nil
    · rw [← hunit]
      refine .lone (fun hhigh => ?_) hqs
      rw [highSurrogate_iff, hu] at hhigh
      omega
  · next h =>
    have hhigh : 0xd800 + (c.toNat - 0x10000) / 0x400 < 0x10000 := by omega
    have hlow : 0xdc00 + (c.toNat - 0x10000) % 0x400 < 0x10000 := by omega
    have hn : c.toNat = 0x10000 + (c.toNat - 0x10000) / 0x400 * 0x400 +
        (c.toNat - 0x10000) % 0x400 := by omega
    refine ⟨_, .cons (spelled_unitEscape hhigh) (.cons (spelled_unitEscape hlow) .nil),
      fun qs t hqs => ?_⟩
    have hpair := denote_pair (by omega) (Nat.mod_lt _ (by decide)) hn hqs
    rwa [Char.ofNat_toNat] at hpair

lemma exists_write_renderPoint (asciiOnly : Bool) (c : Char) :
    ∃ ps, Write ps (Json.renderPoint asciiOnly (.scalar c)) c := by
  unfold Json.renderPoint
  -- one case for each character with an escape of its own, and two for the rest
  split_ifs with quote backslash newline carriage tab backspace feed number
  · obtain rfl := CodePoint.scalar.inj quote
    exact ⟨_, write_short '\x22' _ (by decide)⟩
  · obtain rfl := CodePoint.scalar.inj backslash
    exact ⟨_, write_short '\\' _ (by decide)⟩
  · obtain rfl := CodePoint.scalar.inj newline
    exact ⟨_, write_short 'n' _ (by decide)⟩
  · obtain rfl := CodePoint.scalar.inj carriage
    exact ⟨_, write_short 'r' _ (by decide)⟩
  · obtain rfl := CodePoint.scalar.inj tab
    exact ⟨_, write_short 't' _ (by decide)⟩
  · obtain rfl := CodePoint.scalar.inj backspace
    exact ⟨_, write_short 'b' _ (by decide)⟩
  · obtain rfl := CodePoint.scalar.inj feed
    exact ⟨_, write_short 'f' _ (by decide)⟩
  · exact exists_write_unitEscapes c
  · have hcontrol : 0x20 ≤ (CodePoint.scalar c).toNat := by
      simp only [Bool.or_eq_true, decide_eq_true_eq, not_or] at number
      omega
    exact ⟨_, write_point (.plain hcontrol quote backslash)⟩

lemma AllSpelled.append {ps qs : List StringPart} {s t : Text} (h : AllSpelled ps s)
    (h' : AllSpelled qs t) : AllSpelled (ps ++ qs) (s ++ t) := by
  induction h with
  | nil => exact h'
  | cons head _ ih =>
    rw [List.cons_append, List.append_assoc]
    exact .cons head ih

end StringPart

lemma Text.quoted_renderString (asciiOnly : Bool) (cs : List Char) :
    (ofChars cs).Quoted (Json.renderString asciiOnly (ofChars cs)) := by
  have hparts : ∃ ps, StringPart.AllSpelled ps
      ((ofChars cs).flatMap (Json.renderPoint asciiOnly)) ∧ StringPart.Denote ps (ofChars cs) := by
    induction cs with
    | nil => exact ⟨[], .nil, .nil⟩
    | cons c cs ih =>
      obtain ⟨qs, hspelled, hdenote⟩ := ih
      obtain ⟨ps, hps, hc⟩ := StringPart.exists_write_renderPoint asciiOnly c
      exact ⟨ps ++ qs, hps.append hspelled, hc qs _ hdenote⟩
  obtain ⟨ps, hspelled, hdenote⟩ := hparts
  exact ⟨ps, _, hspelled, hdenote, rfl⟩

/-! ### Layouts -/

/-- A comma stands between items and a colon behind names, both with white space at most. -/
structure JsonLayout.Regular (l : JsonLayout) : Prop where
  items : ∃ w : Text, w.Gap ∧ l.itemSeparator = .scalar ',' :: w
  names : ∃ w : Text, w.Gap ∧ l.nameSeparator = .scalar ':' :: w

namespace Text.Gap

lemma nil : Gap [] := nofun

lemma append {v w : Text} (hv : v.Gap) (hw : w.Gap) : (v ++ w).Gap := by
  intro c hc
  rcases List.mem_append.mp hc with hc | hc
  · exact hv c hc
  · exact hw c hc

lemma lineBreak (l : JsonLayout) (level : Nat) : Gap (l.lineBreak level) := by
  unfold JsonLayout.lineBreak
  intro c hc
  split at hc
  · cases hc
  · rcases List.mem_cons.mp hc with rfl | hc
    · exact .inr (.inr (.inl rfl))
    · exact .inl (List.eq_of_mem_replicate hc)

end Text.Gap

namespace JsonLayout

lemma regular_oneLine : oneLine.Regular where
  items := ⟨[.scalar ' '], by simp [Text.Gap], rfl⟩
  names := ⟨[.scalar ' '], by simp [Text.Gap], rfl⟩

lemma regular_lines (n : Int) : (lines n).Regular where
  items := ⟨[], .nil, rfl⟩
  names := ⟨[.scalar ' '], by simp [Text.Gap], rfl⟩

lemma regular_canonical : canonical.Regular where
  items := ⟨[], .nil, rfl⟩
  names := ⟨[], .nil, rfl⟩

end JsonLayout

/-! ### Values -/

namespace Json

lemma Padded.of_spelled {j : Json} {w s w' : Text} (hw : w.Gap) (h : Spelled j s) (hw' : w'.Gap) :
    Padded j (w ++ s ++ w') := by
  rw [List.append_assoc]
  exact .mk hw h hw'

/-- Items or members with commas and white space between them; `Q` says how one is spelled and `P`
how several are. -/
lemma spelled_intercalate {α : Type} {Q : α → Text → Prop} {P : List α → Text → Prop}
    (one : ∀ {a s}, Q a s → P [a] s)
    (cons : ∀ {a as s t}, Q a s → P as t → P (a :: as) (s ++ .scalar ',' :: t))
    {g : α → Text} {a : α} {as : List α} {v w w' : Text} (hv : v.Gap) (hw : w.Gap) (hw' : w'.Gap)
    (hQ : ∀ b ∈ a :: as, ∀ u u' : Text, u.Gap → u'.Gap → Q b (u ++ g b ++ u')) :
    P (a :: as) (w ++ List.intercalate (.scalar ',' :: v) ((a :: as).map g) ++ w') := by
  -- on the items behind the first, with the gap in front of it
  induction as generalizing a w with
  | nil => simpa using one (hQ a List.mem_cons_self w w' hw hw')
  | cons b as ih =>
    obtain ⟨ha, has⟩ := List.forall_mem_cons.mp hQ
    have hhead := ha w [] hw .nil
    have htail := ih hv has
    have := cons hhead htail
    rw [List.map_cons, List.map_cons, List.intercalate_cons_cons]
    rw [List.map_cons] at this
    simpa using this

lemma renderItems_cons (l : JsonLayout) (level : Nat) (first last : Char) (item : Text)
    (items : List Text) : renderItems l level first last (item :: items) =
      .scalar first :: (l.lineBreak (level + 1) ++
        List.intercalate (l.itemSeparator ++ l.lineBreak (level + 1)) (item :: items) ++
          l.lineBreak level) ++ [.scalar last] := by
  simp [renderItems]

/-- The text of a tidy value spells it, at any level. -/
lemma Tidy.spelled_render {n : Nat} {j : Json} (h : Tidy n j) {l : JsonLayout} (hl : l.Regular)
    (level : Nat) : Spelled j (j.render l level) := by
  obtain ⟨v, hv, hitems⟩ := hl.items
  obtain ⟨u, hu, hnames⟩ := hl.names
  induction h generalizing level with
  | null =>
    rw [render]
    exact .null
  | bool b =>
    rw [render]
    cases b with
    | false => exact .false
    | true => exact .true
  | int =>
    rw [render]
    exact spelled_int _
  | string cs =>
    rw [render]
    exact .string (Text.quoted_renderString l.asciiOnly cs)
  | @array n js _ ih =>
    rw [render]
    -- an empty container is written without a line break
    cases js with
    | nil => exact .emptyArray .nil
    | cons j js =>
      rw [List.map_cons, renderItems_cons, hitems]
      refine .array (spelled_intercalate .one .cons (hv.append (.lineBreak l _)) (.lineBreak l _)
        (.lineBreak l _) fun k hk w w' hw hw' => ?_)
      exact .of_spelled hw (ih k hk _) hw'
  | @object n ms names _ _ ih =>
    rw [render]
    cases ms with
    | nil => exact .emptyObject .nil
    | cons m ms =>
      rw [List.map_cons, renderItems_cons, hitems]
      refine .object (spelled_intercalate (Q := MemberSpelled) (P := MembersSpelled) .one .cons
        (g := fun m => renderString l.asciiOnly m.1 ++ l.nameSeparator ++ render l (level + 1) m.2)
        (hv.append (.lineBreak l _)) (.lineBreak l _) (.lineBreak l _) fun m hm w w' hw hw' => ?_)
      obtain ⟨cs, hcs⟩ := names m hm
      have hname : m.1.Quoted (renderString l.asciiOnly m.1) :=
        hcs ▸ Text.quoted_renderString l.asciiOnly cs
      have hmember := MemberSpelled.mk hw hname .nil (.mk hu (ih m hm (level + 1)) hw')
      simpa [hnames] using hmember

/-- The text of a tidy value is a JSON text that denotes it. -/
lemma Tidy.denotes_render {n : Nat} {j : Json} (h : Tidy n j) {l : JsonLayout} (hl : l.Regular) :
    Text.Denotes (j.render l 0) j := by
  have hpadded := Padded.of_spelled .nil (h.spelled_render hl 0) .nil
  rwa [List.nil_append, List.append_nil] at hpadded

end Json

end Clausal
