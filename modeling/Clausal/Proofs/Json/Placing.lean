import Clausal.Proofs.Json.Parsing
import Clausal.Proofs.Json.TreePlaces

/-!
# Where values are read

Every state of the reading machine stands at the end of a text that spells what the state holds,
each part with the position at which its spelling starts, and every token leads to such a state
again. Resolving a tree moves nothing, so the positions in a value that is read are those at which
its spelling and the spellings of its parts start.
-/

namespace Clausal

/-! ### Positions of places -/

namespace Place

/-- The position keeps up with the text that is left behind. -/
lemma position_advance {p : Place} {b s t : Text} (hp : p.position = b.endPosition)
    (h : p.ahead = s ++ t) : (p.advance s.length).position = (b ++ s).endPosition := by
  induction s generalizing p b with
  | nil => simpa [advance] using hp
  | cons c s ih =>
    obtain ⟨behind, ahead, position⟩ := p
    cases h
    rw [List.length_cons, advance, ih (b := b ++ [c]) ?_ rfl]
    · simp
    · rw [Text.endPosition_concat, ← hp]

lemma position_skipGaps {p : Place} {b w : Text} {t : Text} {c : CodePoint} (hw : w.Gap)
    (hc : CodePoint.isGap c = false) (hp : p.position = b.endPosition) (h : p.ahead = w ++ c :: t) :
    p.skipGaps.position = (b ++ w).endPosition := by
  have htake : p.ahead.takeWhile CodePoint.isGap = w := by
    rw [h, List.takeWhile_append_of_pos (Text.gap_iff.mp hw),
      List.takeWhile_cons_of_neg (by simp [hc]), List.append_nil]
  rw [skipGaps, htake]
  exact position_advance hp h

end Place

/-! ### Trees as located values -/

namespace Tree

lemma resolveItems_eq_ok {items : List Tree} (hitems : ∀ t ∈ items, ∀ l, t.resolve = .ok l →
    l = t.toLocated) {before ls : List Located} (h : resolveItems before items = .ok ls) :
    ls = before.reverse ++ items.map toLocated := by
  induction items generalizing before with
  | nil =>
    cases h
    simp
  | cons t items ih =>
    obtain ⟨ht, hitems⟩ := List.forall_mem_cons.mp hitems
    obtain ⟨l, hl, h⟩ := Outcome.bind_eq_ok.mp h
    rw [ih hitems h, ht l hl]
    simp

lemma resolveMembers_eq_ok {members : List (Key × Tree)}
    (hmembers : ∀ m ∈ members, ∀ l, m.2.resolve = .ok l → l = m.2.toLocated)
    {before ms : List (Key × Located)} (h : resolveMembers before members = .ok ms) :
    ms = before.reverse ++ members.map fun m => (m.1, m.2.toLocated) := by
  induction members generalizing before with
  | nil =>
    cases h
    simp
  | cons m members ih =>
    obtain ⟨hm, hmembers⟩ := List.forall_mem_cons.mp hmembers
    obtain ⟨l, hl, h⟩ := Outcome.bind_eq_ok.mp h
    rw [ih hmembers h, hm l hl]
    simp

lemma distinctMembers_eq_ok {members : List (Key × Located)} {before ms : List (Text × Located)}
    (h : Located.distinctMembers before members = .ok ms) :
    ms = before.reverse ++ members.map fun m => (m.1.2, m.2) := by
  -- on the members that are left, with those before them in reverse
  induction members generalizing before with
  | nil =>
    cases h
    simp
  | cons m members ih =>
    obtain ⟨⟨s, k⟩, v⟩ := m
    rw [Located.distinctMembers] at h
    split at h
    · cases h
    · rw [ih h]
      simp

/-- Resolving keeps all parts in their places. -/
lemma eq_toLocated_of_resolve (t : Tree) : ∀ l, t.resolve = .ok l → l = t.toLocated := by
  -- on the tree: failures aside, resolving changes nothing but the order in which it is done
  induction t using Tree.inductionOn with
  | null s | bool s b | string s t =>
    intro l h
    rw [resolve] at h
    rw [toLocated]
    exact (Except.ok.inj h).symm
  | number s n =>
    intro l h
    rw [resolve, Located.ofNumber] at h
    rw [toLocated]
    split_ifs at h ⊢
    · exact (Except.ok.inj h).symm
    · cases h
    · exact (Except.ok.inj h).symm
  | array s items ih =>
    intro l h
    rw [resolve] at h
    obtain ⟨ls, hls, h⟩ := Outcome.bind_eq_ok.mp h
    rw [toLocated, Outcome.pure_eq_ok.mp h, resolveItems_eq_ok ih hls]
    simp
  | object s members ih =>
    intro l h
    rw [resolve] at h
    obtain ⟨ms, hms, h⟩ := Outcome.bind_eq_ok.mp h
    obtain ⟨ks, hks, h⟩ := Outcome.bind_eq_ok.mp h
    rw [toLocated, Outcome.pure_eq_ok.mp h, distinctMembers_eq_ok hks, resolveMembers_eq_ok ih hms]
    simp

end Tree

/-! ### The text that a state has read -/

/-- Parts of an open container, the last one first: behind `b` they are spelled in order, each with
a comma behind it. -/
inductive Listed {α : Type} (Q : α → Text → Text → Prop) (b : Text) : List α → Text → Prop
  | nil : Listed Q b [] []
  | cons {a : α} {as : List α} {x s : Text} (before : Listed Q b as x) (last : Q a (b ++ x) s) :
      Listed Q b (a :: as) (x ++ (s ++ [.scalar ',']))

lemma Listed.items {ts us : List Tree} {b x s : Text} (h : Listed Tree.PaddedAt b ts x)
    (hus : Tree.ItemsSpelledAt us (b ++ x) s) :
    Tree.ItemsSpelledAt (ts.reverse ++ us) b (x ++ s) := by
  induction h generalizing us s with
  | nil => simpa using hus
  | cons before last ih =>
    have := ih (.cons last (by simpa using hus))
    simpa using this

lemma Listed.members {ms ns : List (Key × Tree)} {b x s : Text}
    (h : Listed Tree.MemberSpelledAt b ms x) (hns : Tree.MembersSpelledAt ns (b ++ x) s) :
    Tree.MembersSpelledAt (ms.reverse ++ ns) b (x ++ s) := by
  induction h generalizing ns s with
  | nil => simpa using hns
  | cons before last ih =>
    have := ih (.cons last (by simpa using hns))
    simpa using this

mutual

/-- The text ends where the innermost of the open containers waits for a value. -/
inductive StackAt : List Frame → Text → Prop
  | nil : StackAt [] []
  | array {start : Position} {items : List Tree} {stack : List Frame} {o x : Text}
      (opened : OpenAt '[' start stack o) (before : Listed Tree.PaddedAt o items x) :
      StackAt (.array start items :: stack) (o ++ x)
  | object {start : Position} {members : List (Key × Tree)} {k : Text} {stack : List Frame}
      {o x w n w' : Text} (opened : OpenAt '\x7b' start stack o)
      (before : Listed Tree.MemberSpelledAt o members x) (gap : w.Gap) (name : k.Quoted n)
      (gap' : w'.Gap) :
      StackAt (.object start members ((o ++ (x ++ w)).endPosition, k) :: stack)
        (o ++ (x ++ (w ++ (n ++ (w' ++ [.scalar ':'])))))

/-- The text ends with the mark that opens a container, and this starts at its position. -/
inductive OpenAt : Char → Position → List Frame → Text → Prop
  | mk {mark : Char} {stack : List Frame} {c w : Text} (outer : StackAt stack c) (gap : w.Gap) :
      OpenAt mark (c ++ w).endPosition stack (c ++ (w ++ [.scalar mark]))

end

namespace ParseState

/-- The text ends with the last token that the state has read, and spells what the state holds in
the places that it holds. -/
inductive At : ParseState → Text → Prop
  | value {stack : List Frame} {b : Text} (outer : StackAt stack b) : At (value stack) b
  | firstItem {start : Position} {stack : List Frame} {b : Text}
      (opened : OpenAt '[' start stack b) : At (firstItem start stack) b
  | afterItem {start : Position} {t : Tree} {items : List Tree} {stack : List Frame} {o x s : Text}
      (opened : OpenAt '[' start stack o) (before : Listed Tree.PaddedAt o items x)
      (last : t.PaddedAt (o ++ x) s) : At (afterItem start (t :: items) stack) (o ++ (x ++ s))
  | firstMember {start : Position} {stack : List Frame} {b : Text}
      (opened : OpenAt '\x7b' start stack b) : At (firstMember start stack) b
  | nextMember {start : Position} {members : List (Key × Tree)} {stack : List Frame} {o x : Text}
      (opened : OpenAt '\x7b' start stack o) (before : Listed Tree.MemberSpelledAt o members x) :
      At (nextMember start members stack) (o ++ x)
  | afterKey {start : Position} {members : List (Key × Tree)} {k : Text} {stack : List Frame}
      {o x w n : Text} (opened : OpenAt '\x7b' start stack o)
      (before : Listed Tree.MemberSpelledAt o members x) (gap : w.Gap) (name : k.Quoted n) :
      At (afterKey start members ((o ++ (x ++ w)).endPosition, k) stack)
        (o ++ (x ++ (w ++ n)))
  | afterMember {start : Position} {m : Key × Tree} {members : List (Key × Tree)}
      {stack : List Frame} {o x s : Text} (opened : OpenAt '\x7b' start stack o)
      (before : Listed Tree.MemberSpelledAt o members x)
      (last : Tree.MemberSpelledAt m (o ++ x) s) :
      At (afterMember start (m :: members) stack) (o ++ (x ++ s))
  | done {t : Tree} {b : Text} (read : t.PaddedAt [] b) : At (done t) b

lemma at_afterValue {t : Tree} {stack : List Frame} {c w s : Text} (hstack : StackAt stack c)
    (hw : w.Gap) (h : t.SpelledAt (c ++ w) s) : (afterValue t stack).At (c ++ (w ++ s)) := by
  -- the finished value goes into the container around it, or it is the document
  cases hstack with
  | nil =>
    have := Tree.SpelledAt.paddedAt (b := []) hw h
    exact .done this
  | array opened before =>
    have := At.afterItem opened before (h.paddedAt hw)
    simpa [afterValue] using this
  | @object start members k stack o x v n v' opened before gap name gap' =>
    have hvalue : t.SpelledAt (o ++ x ++ (v ++ (n ++ (v' ++ [.scalar ':']))) ++ w) s := by
      simpa using h
    have := At.afterMember opened before (.mk gap name gap' (hvalue.paddedAt hw))
    simpa [afterValue] using this

/-- Where a value is waited for, its first token opens a container or is the whole value. -/
lemma at_of_startValue {stack : List Frame} {tok : Token} {s' : ParseState} {c w x : Text}
    (hstack : StackAt stack c) (hw : w.Gap) (hx : tok.Spelled x)
    (h : startValue stack (c ++ w).endPosition tok = some s') : s'.At (c ++ (w ++ x)) := by
  -- a bracket opens a container, everything else is a value of its own
  cases tok with
  | openBrace =>
    cases h
    cases hx
    exact .firstMember (.mk hstack hw)
  | openBracket =>
    cases h
    cases hx
    exact .firstItem (.mk hstack hw)
  | string t =>
    cases h
    exact at_afterValue hstack hw (.string hx)
  | number l =>
    cases h
    obtain ⟨hl, rfl⟩ := hx
    exact at_afterValue hstack hw (.number hl)
  | true | false | null =>
    cases h
    cases hx
    exact at_afterValue hstack hw (by constructor)
  | closeBrace | closeBracket | colon | comma => cases h

lemma at_of_closed_array {start : Position} {items : List Tree} {stack : List Frame} {o s : Text}
    (hopen : OpenAt '[' start stack o)
    (h : (items = [] ∧ s.Gap) ∨ Tree.ItemsSpelledAt items o s) :
    (afterValue (.array start items) stack).At (o ++ (s ++ [.scalar ']'])) := by
  obtain @⟨_, stack, c, w, hstack, hw⟩ := hopen
  have hvalue : (Tree.array (c ++ w).endPosition items).SpelledAt (c ++ w)
      (.scalar '[' :: s ++ [.scalar ']']) := by
    rcases h with ⟨rfl, hs⟩ | h
    · exact .emptyArray hs
    · exact .array (by simpa using h)
  have := at_afterValue hstack hw hvalue
  simpa using this

lemma at_of_closed_object {start : Position} {members : List (Key × Tree)} {stack : List Frame}
    {o s : Text} (hopen : OpenAt '\x7b' start stack o)
    (h : (members = [] ∧ s.Gap) ∨ Tree.MembersSpelledAt members o s) :
    (afterValue (.object start members) stack).At (o ++ (s ++ [.scalar '\x7d'])) := by
  obtain @⟨_, stack, c, w, hstack, hw⟩ := hopen
  have hvalue : (Tree.object (c ++ w).endPosition members).SpelledAt (c ++ w)
      (.scalar '\x7b' :: s ++ [.scalar '\x7d']) := by
    rcases h with ⟨rfl, hs⟩ | h
    · exact .emptyObject hs
    · exact .object (by simpa using h)
  have := at_afterValue hstack hw hvalue
  simpa using this

/-- A step leads from the end of one token to the end of the next. -/
lemma at_of_next {s s' : ParseState} {tok : Token} {b w x : Text} (hs : s.At b) (hw : w.Gap)
    (hx : tok.Spelled x) (h : s.next (b ++ w).endPosition tok = some s') :
    s'.At (b ++ (w ++ x)) := by
  -- one case for every transition; the text of the frame around is what the invariant keeps
  cases next_cases h with
  | value h =>
    cases hs with
    | value outer => exact at_of_startValue outer hw hx h
  | firstItem h =>
    cases hs with
    | firstItem opened =>
      have := StackAt.array opened .nil
      exact at_of_startValue (by simpa using this) hw hx h
  | emptyArray =>
    cases hs with
    | firstItem opened =>
      cases hx
      exact at_of_closed_array opened (.inl ⟨rfl, hw⟩)
  | itemComma =>
    cases hs with
    | afterItem opened before last =>
      cases hx
      have := At.value (.array opened (.cons before (last.append_gap hw)))
      simpa using this
  | array =>
    -- the closing bracket turns the items read so far, which stand in reverse, into those of the
    -- array
    cases hs with
    | @afterItem start t items stack o x s opened before last =>
      cases hx
      have hitems : Tree.ItemsSpelledAt (t :: items).reverse o (x ++ (s ++ w)) := by
        simpa using before.items (.one (last.append_gap hw))
      have := at_of_closed_array opened (.inr hitems)
      simpa using this
  | emptyObject =>
    cases hs with
    | firstMember opened =>
      cases hx
      exact at_of_closed_object opened (.inl ⟨rfl, hw⟩)
  | firstName =>
    cases hs with
    | firstMember opened =>
      have := At.afterKey opened .nil hw hx
      simpa using this
  | nextName =>
    cases hs with
    | @nextMember start members stack o v opened before =>
      have := At.afterKey opened before hw hx
      simpa using this
  | colon =>
    cases hs with
    | @afterKey start members k stack o x v n opened before gap name =>
      cases hx
      have := At.value (.object opened before gap name hw)
      simpa using this
  | memberComma =>
    cases hs with
    | afterMember opened before last =>
      cases hx
      have := At.nextMember opened (.cons before (last.append_gap hw))
      simpa using this
  | object =>
    cases hs with
    | @afterMember start m members stack o x s opened before last =>
      cases hx
      have hmembers : Tree.MembersSpelledAt (m :: members).reverse o (x ++ (s ++ w)) := by
        simpa using before.members (.one (last.append_gap hw))
      have := at_of_closed_object opened (.inr hmembers)
      simpa using this

end ParseState

/-! ### Texts and positions -/

namespace Tree

/-- From a state at the end of a text the rest is read in place. -/
lemma paddedAt_of_readFrom {limit : Nat} {s : ParseState} {p : Place} {t : Tree}
    (h : readFrom limit s p = .ok t) {b : Text} (hs : s.At b) (hp : p.position = b.endPosition) :
    t.PaddedAt [] (b ++ p.ahead) := by
  -- along the reading, with the text that has been read as the invariant of the state
  fun_induction readFrom limit s p generalizing b with
  | case1 p q hq t' =>
    cases h
    obtain ⟨w, hw, hahead⟩ := p.exists_skipGaps
    cases hs with
    | done read =>
      rw [hahead, hq, List.append_nil]
      exact read.append_gap hw
  | case4 s p q c rest hq tok n hread s' hnext hdepth ih =>
    obtain ⟨-, x, rest', hrest, hlength, hx⟩ :=
      Token.spelled_of_read? (Token.readAny?_eq_some_iff.mp hread).2
    obtain ⟨y, x', rfl, hy⟩ := hx.exists_cons
    obtain ⟨w, hw, hahead⟩ := p.exists_skipGaps
    have hq' : p.skipGaps.ahead = y :: x' ++ rest' := hq.trans hrest
    have hposition : p.skipGaps.position = (b ++ w).endPosition :=
      Place.position_skipGaps hw (Token.isGap_of_kindAt? hy) hp (hq' ▸ hahead)
    have hstep := ParseState.at_of_next hs hw hx (hposition ▸ hnext)
    have hadvance := Place.position_advance hposition hq'
    rw [hlength] at hadvance
    have hrest' : (p.skipGaps.advance (n + 1)).ahead = rest' := by
      rw [Place.advance_ahead, hq', ← Nat.succ_eq_add_one, ← hlength, List.drop_left]
    have := ih h hstep (by simpa using hadvance)
    rw [hrest'] at this
    rw [hahead, hq']
    simpa using this
  | _ => cases h

/-- A text that is read spells the tree in its places. -/
lemma paddedAt_of_read {limit : Nat} {t : Text} {tree : Tree} (h : read limit t = .ok tree) :
    tree.PaddedAt [] t :=
  paddedAt_of_readFrom h (.value .nil) Text.endPosition_nil.symm

end Tree

namespace Located

lemma paddedAt_of_parse {parser : Parser} {t : Text} {l : Located}
    (h : parse parser t = .ok l) : l.PaddedAt [] t := by
  have hparse : parse parser t = parseWithin t.length t := parse_eq_of_answers (by simp [h])
  obtain ⟨tree, hread, hresolve⟩ := Outcome.bind_eq_ok.mp (hparse.symm.trans h)
  rw [tree.eq_toLocated_of_resolve l hresolve]
  exact (Tree.paddedAt_of_read hread).toLocated

/-- In a text that a parser reads, the value and all values inside it have spellings that fit
together as the grammar says, and each value holds the line and the column at which its own spelling
starts: lines are counted by the line feeds before it, columns by the code points since the last of
these. -/
theorem parse_spelledAt {parser : Parser} {t : Text} {l : Located} (h : parse parser t = .ok l) :
    l.PaddedAt [] t ∧
      ∀ v : Located, v.Within l → ∃ before s after, t = before ++ (s ++ after) ∧
        v.SpelledAt before s ∧ v.plain.Spelled s ∧ v.start = ⟨before.count (.scalar '\n') + 1,
          (before.reverse.takeWhile (· ≠ .scalar '\n')).length + 1⟩ := by
  have hpadded := paddedAt_of_parse h
  refine ⟨hpadded, fun v hv => ?_⟩
  have hinside : v.SpelledInside [] t :=
    hpadded.inside.trans fun _ _ hl => hl.inside_of_within hv
  obtain ⟨before, s, after, rfl, hs⟩ := hinside
  exact ⟨before, s, after, rfl, hs, hs.spelled, hs.start_eq⟩

/-- Behind a carriage return, a tab and a character beyond the first plane, the empty array inside
the object starts in the sixth column of the third line. -/
theorem parse_spelledAt_mixed :
    let t := Text.ofChars ['\r', '\n', '\t', '[', '\x22', '𝒳', '\x22', ' ', ',', '\n', '\x7b',
      '\x22', 'k', '\x22', ':', '[', ' ', ']', '\x7d', ',', '-', '5', '\r', ']']
    ∃ l v : Located, parse .standard t = .ok l ∧ v.Within l ∧ v.start = ⟨3, 6⟩ ∧ l.PaddedAt [] t ∧
      ∃ before s after, t = before ++ (s ++ after) ∧ v.SpelledAt before s ∧ v.plain.Spelled s ∧
        v.start = ⟨before.count (.scalar '\n') + 1,
          (before.reverse.takeWhile (· ≠ .scalar '\n')).length + 1⟩ := by
  intro t
  -- the position is computed once; what it is the position of follows from the theorem
  have hread : ((parse .standard t).toOption.bind fun l =>
      l.parts[1]?.bind fun o => o.parts[0]?.map start) = some ⟨3, 6⟩ := by
    decide +kernel
  cases hparse : parse .standard t with
  | error e =>
    rw [hparse] at hread
    cases hread
  | ok l =>
    rw [hparse] at hread
    obtain ⟨_, ⟨⟩, hparts⟩ := Option.bind_eq_some_iff.mp hread
    obtain ⟨o, ho, hpart⟩ := Option.bind_eq_some_iff.mp hparts
    obtain ⟨v, hv, hstart⟩ := Option.map_eq_some_iff.mp hpart
    have hwithin : v.Within l :=
      .head (List.mem_of_getElem? ho) (.single (List.mem_of_getElem? hv))
    obtain ⟨hpadded, hinside⟩ := parse_spelledAt hparse
    exact ⟨l, v, rfl, hwithin, hstart, hpadded, hinside v hwithin⟩

end Located

end Clausal
