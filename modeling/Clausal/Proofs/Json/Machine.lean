import Clausal.Proofs.Json.Automaton
import Clausal.Proofs.Json.Value

/-!
# The reading machine

What a state has read is the sequence of tokens that it stands for, and every step adds one token to
it. From every state that waits for a value the tokens of a value lead to the state behind it, so
the machine reads exactly the token sequences of values.
-/

namespace Clausal

/-- Lists with a comma between neighbours. -/
def separated (items : List (List Token)) : List Token := List.intercalate [.comma] items

lemma separated_singleton (ts : List Token) : separated [ts] = ts := by
  simp [separated, List.intercalate]

lemma separated_cons_cons (ts us : List Token) (items : List (List Token)) :
    separated (ts :: us :: items) = ts ++ .comma :: separated (us :: items) := by
  simp [separated, List.intercalate]

lemma separated_concat (items : List (List Token)) (ts : List Token) :
    separated (items ++ [ts]) = items.flatMap (· ++ [.comma]) ++ ts := by
  induction items with
  | nil => exact separated_singleton ts
  | cons us items ih =>
    cases items with
    | nil =>
      rw [List.singleton_append, separated_cons_cons, separated_singleton]
      simp
    | cons vs items =>
      rw [List.cons_append, List.cons_append, separated_cons_cons, ← List.cons_append, ih]
      simp

/-! ### Trees -/

namespace Tree

lemma sizeOf_lt_array {s : Position} {items : List Tree} {t : Tree} (h : t ∈ items) :
    sizeOf t < sizeOf (array s items) := by
  have := List.sizeOf_lt_of_mem h
  simp only [array.sizeOf_spec]
  omega

lemma sizeOf_lt_object {s : Position} {members : List (Key × Tree)} {m : Key × Tree}
    (h : m ∈ members) : sizeOf m.2 < sizeOf (object s members) := by
  have := List.sizeOf_lt_of_mem h
  obtain ⟨k, v⟩ := m
  simp only [object.sizeOf_spec, Prod.mk.sizeOf_spec] at this ⊢
  omega

/-- What holds of trees when it holds of their parts holds of all trees. -/
@[elab_as_elim]
lemma inductionOn {P : Tree → Prop} (null : ∀ s, P (null s)) (bool : ∀ s b, P (bool s b))
    (number : ∀ s l, P (number s l)) (string : ∀ s t, P (string s t))
    (array : ∀ s items, (∀ t ∈ items, P t) → P (array s items))
    (object : ∀ s members, (∀ m ∈ members, P m.2) → P (object s members)) : ∀ t, P t
  | .null s => null s
  | .bool s b => bool s b
  | .number s l => number s l
  | .string s t => string s t
  | .array s items => array s items fun t _ => inductionOn null bool number string array object t
  | .object s members =>
    object s members fun m _ => inductionOn null bool number string array object m.2
termination_by t => sizeOf t
decreasing_by
  · exact sizeOf_lt_array ‹_›
  · exact sizeOf_lt_object ‹_›

/-- The value that a tree spells, with all its members. -/
def json : Tree → Json
  | null _ => .null
  | bool _ b => .bool b
  | number _ l => l.json
  | string _ t => .string t
  | array _ items => .array (items.map json)
  | object _ members => .object (members.map fun m => (m.1.2, json m.2))
termination_by t => sizeOf t
decreasing_by
  · exact sizeOf_lt_array ‹_›
  · exact sizeOf_lt_object ‹_›

/-- The tokens that spell a tree. -/
def tokens : Tree → List Token
  | null _ => [.null]
  | bool _ b => [if b then .true else .false]
  | number _ l => [.number l]
  | string _ t => [.string t]
  | array _ items => .openBracket :: (separated (items.map tokens) ++ [.closeBracket])
  | object _ members =>
    .openBrace :: (separated (members.map fun m => .string m.1.2 :: .colon :: tokens m.2) ++
      [.closeBrace])
termination_by t => sizeOf t
decreasing_by
  · exact sizeOf_lt_array ‹_›
  · exact sizeOf_lt_object ‹_›

end Tree

/-- The tokens of a member. -/
def memberTokens (m : Key × Tree) : List Token := .string m.1.2 :: .colon :: m.2.tokens

lemma Tree.tokens_object (s : Position) (members : List (Key × Tree)) :
    (object s members).tokens =
      .openBrace :: (separated (members.map memberTokens) ++ [.closeBrace]) := by
  rw [tokens]
  rfl

/-! ### Tokens that a state has read -/

/-- Items with a comma after each. -/
def itemsRead (items : List (List Token)) : List Token := items.flatMap (· ++ [.comma])

lemma itemsRead_concat (items : List (List Token)) (ts : List Token) :
    itemsRead (items ++ [ts]) = itemsRead items ++ ts ++ [.comma] := by
  simp [itemsRead]

/-- What has been read of an open container, up to the value that it waits for. -/
def Frame.tokens : Frame → List Token
  | array _ items => .openBracket :: itemsRead (items.reverse.map Tree.tokens)
  | object _ members key =>
    .openBrace :: (itemsRead (members.reverse.map memberTokens) ++ [.string key.2, .colon])

/-- What has been read of open containers, the innermost first. -/
def stackTokens (stack : List Frame) : List Token := stack.reverse.flatMap Frame.tokens

lemma stackTokens_cons (f : Frame) (stack : List Frame) :
    stackTokens (f :: stack) = stackTokens stack ++ f.tokens := by
  simp [stackTokens]

namespace ParseState

/-- The tokens that lead to a state. -/
def tokens : ParseState → List Token
  | value stack => stackTokens stack
  | firstItem _ stack => stackTokens stack ++ [.openBracket]
  | afterItem _ items stack =>
    stackTokens stack ++ .openBracket :: separated (items.reverse.map Tree.tokens)
  | firstMember _ stack => stackTokens stack ++ [.openBrace]
  | nextMember _ members stack =>
    stackTokens stack ++ .openBrace :: itemsRead (members.reverse.map memberTokens)
  | afterKey _ members key stack =>
    stackTokens stack ++ .openBrace ::
      (itemsRead (members.reverse.map memberTokens) ++ [.string key.2])
  | afterMember _ members stack =>
    stackTokens stack ++ .openBrace :: separated (members.reverse.map memberTokens)
  | done t => t.tokens

lemma tokens_afterValue (t : Tree) (stack : List Frame) :
    (afterValue t stack).tokens = stackTokens stack ++ t.tokens := by
  match stack with
  | [] => rfl
  | .array start items :: stack =>
    simp [afterValue, tokens, stackTokens_cons, Frame.tokens, separated_concat, itemsRead]
  | .object start members key :: stack =>
    simp [afterValue, tokens, stackTokens_cons, Frame.tokens, separated_concat, itemsRead,
      memberTokens]

/-- The first token of a value opens a container or is a whole value. -/
lemma startValue_cases {stack : List Frame} {pos : Position} {tok : Token} {s : ParseState}
    (h : startValue stack pos tok = some s) :
    (tok = .openBrace ∧ s = firstMember pos stack) ∨
    (tok = .openBracket ∧ s = firstItem pos stack) ∨
    (∃ t : Tree, t.tokens = [tok] ∧ s = afterValue t stack) := by
  cases tok with
  | openBrace => exact .inl ⟨rfl, (Option.some.inj h).symm⟩
  | openBracket => exact .inr (.inl ⟨rfl, (Option.some.inj h).symm⟩)
  | string | number | true | false | null =>
    exact .inr (.inr ⟨_, by rw [Tree.tokens]; try rfl, (Option.some.inj h).symm⟩)
  | _ => cases h

lemma tokens_of_startValue {stack : List Frame} {pos : Position} {tok : Token} {s : ParseState}
    (h : startValue stack pos tok = some s) : s.tokens = stackTokens stack ++ [tok] := by
  rcases startValue_cases h with ⟨rfl, rfl⟩ | ⟨rfl, rfl⟩ | ⟨t, ht, rfl⟩
  · rfl
  · rfl
  · rw [tokens_afterValue, ht]

/-- The steps of the machine: in which states a token leads on, and where to. -/
inductive Next : ParseState → Position → Token → ParseState → Prop
  | value {stack : List Frame} {pos : Position} {tok : Token} {s : ParseState}
      (h : startValue stack pos tok = some s) : Next (value stack) pos tok s
  | emptyArray {start pos : Position} {stack : List Frame} :
      Next (firstItem start stack) pos .closeBracket (afterValue (.array start []) stack)
  | firstItem {start pos : Position} {stack : List Frame} {tok : Token} {s : ParseState}
      (h : startValue (.array start [] :: stack) pos tok = some s) :
      Next (firstItem start stack) pos tok s
  | itemComma {start pos : Position} {items : List Tree} {stack : List Frame} :
      Next (afterItem start items stack) pos .comma (value (.array start items :: stack))
  | array {start pos : Position} {items : List Tree} {stack : List Frame} :
      Next (afterItem start items stack) pos .closeBracket
        (afterValue (.array start items.reverse) stack)
  | emptyObject {start pos : Position} {stack : List Frame} :
      Next (firstMember start stack) pos .closeBrace (afterValue (.object start []) stack)
  | firstName {start pos : Position} {k : Text} {stack : List Frame} :
      Next (firstMember start stack) pos (.string k) (afterKey start [] (pos, k) stack)
  | nextName {start pos : Position} {members : List (Key × Tree)} {k : Text}
      {stack : List Frame} :
      Next (nextMember start members stack) pos (.string k) (afterKey start members (pos, k) stack)
  | colon {start pos : Position} {members : List (Key × Tree)} {key : Key} {stack : List Frame} :
      Next (afterKey start members key stack) pos .colon
        (value (.object start members key :: stack))
  | memberComma {start pos : Position} {members : List (Key × Tree)} {stack : List Frame} :
      Next (afterMember start members stack) pos .comma (nextMember start members stack)
  | object {start pos : Position} {members : List (Key × Tree)} {stack : List Frame} :
      Next (afterMember start members stack) pos .closeBrace
        (afterValue (.object start members.reverse) stack)

lemma next_cases {s s' : ParseState} {pos : Position} {tok : Token}
    (h : s.next pos tok = some s') : Next s pos tok s' := by
  unfold next at h
  split at h
  case h_1 => exact .value h
  case h_3 => exact .firstItem h
  all_goals cases h
  all_goals constructor

/-- Between items or members at least one has been read. -/
def Begun : ParseState → Prop
  | afterItem _ items _ => items ≠ []
  | afterMember _ members _ => members ≠ []
  | _ => True

lemma begun_afterValue (t : Tree) (stack : List Frame) : (afterValue t stack).Begun := by
  match stack with
  | [] => trivial
  | .array start items :: stack => exact List.cons_ne_nil _ _
  | .object start members key :: stack => exact List.cons_ne_nil _ _

lemma begun_of_startValue {stack : List Frame} {pos : Position} {tok : Token} {s : ParseState}
    (h : startValue stack pos tok = some s) : s.Begun := by
  rcases startValue_cases h with ⟨-, rfl⟩ | ⟨-, rfl⟩ | ⟨t, -, rfl⟩
  · trivial
  · trivial
  · exact begun_afterValue t stack

lemma begun_of_next {s s' : ParseState} {pos : Position} {tok : Token}
    (h : s.next pos tok = some s') : s'.Begun := by
  cases next_cases h with
  | value h | firstItem h => exact begun_of_startValue h
  | emptyArray | array | emptyObject | object => exact begun_afterValue _ _
  | itemComma | memberComma | firstName | nextName | colon => trivial

lemma itemsRead_reverse_map {α : Type} {f : α → List Token} {items : List α} (h : items ≠ []) :
    itemsRead (items.reverse.map f) = separated (items.reverse.map f) ++ [.comma] := by
  obtain ⟨t, items, rfl⟩ := List.exists_cons_of_ne_nil h
  rw [List.reverse_cons, List.map_append, List.map_singleton, separated_concat, itemsRead_concat]
  rfl

/-- A step reads one token. -/
lemma tokens_of_next {s s' : ParseState} {pos : Position} {tok : Token} (hs : s.Begun)
    (h : s.next pos tok = some s') : s'.tokens = s.tokens ++ [tok] := by
  cases next_cases h with
  | value h => exact tokens_of_startValue h
  | firstItem h =>
    rw [tokens_of_startValue h, stackTokens_cons]
    rfl
  | emptyArray | array | emptyObject | object =>
    -- what closes a container moves it from the stack into the frame below as one finished value
    rw [tokens_afterValue]
    simp [tokens, Tree.tokens, Tree.tokens_object, separated]
  | itemComma =>
    rw [tokens, stackTokens_cons, Frame.tokens, itemsRead_reverse_map hs, tokens]
    simp
  | memberComma =>
    rw [tokens, itemsRead_reverse_map hs, tokens]
    simp
  | firstName | nextName | colon => simp [tokens, stackTokens_cons, Frame.tokens, itemsRead]

lemma depth_afterValue (t : Tree) (stack : List Frame) :
    (afterValue t stack).depth = stack.length := by
  match stack with
  | [] => rfl
  | .array start items :: stack => rfl
  | .object start members key :: stack => rfl

lemma depth_of_startValue {stack : List Frame} {pos : Position} {tok : Token} {s : ParseState}
    (h : startValue stack pos tok = some s) : s.depth ≤ stack.length + 1 := by
  rcases startValue_cases h with ⟨-, rfl⟩ | ⟨-, rfl⟩ | ⟨t, -, rfl⟩
  · exact Nat.le_refl _
  · exact Nat.le_refl _
  · rw [depth_afterValue]
    exact Nat.le_succ _

/-- A step opens at most one container. -/
lemma depth_of_next {s s' : ParseState} {pos : Position} {tok : Token}
    (h : s.next pos tok = some s') : s'.depth ≤ s.depth + 1 := by
  cases next_cases h with
  | value h | firstItem h => exact depth_of_startValue h
  | emptyArray | array | emptyObject | object =>
    rw [depth_afterValue, depth]
    omega
  | itemComma | memberComma | firstName | nextName | colon => exact Nat.le_succ _

/-! ### Kinds of tokens that may come next -/

/-- The kinds of tokens that may follow a whole value. -/
def closers : List TokenKind := [.comma, .closeBracket, .closeBrace, .endOfText]

lemma expected_afterValue (t : Tree) (stack : List Frame) :
    (afterValue t stack).expected ⊆ closers := by
  match stack with
  | [] => simp [afterValue, expected, closers]
  | .array start items :: stack => simp [afterValue, expected, closers]
  | .object start members key :: stack => simp [afterValue, expected, closers]

lemma expected_of_startValue {stack : List Frame} {pos : Position} {tok : Token} {s : ParseState}
    (h : startValue stack pos tok = some s) (htok : tok.isOpenEnded) : s.expected ⊆ closers := by
  rcases startValue_cases h with ⟨rfl, -⟩ | ⟨rfl, -⟩ | ⟨t, -, rfl⟩
  · cases htok
  · cases htok
  · exact expected_afterValue t stack

/-- No second value follows a number or a word. -/
lemma expected_of_next {s s' : ParseState} {pos : Position} {tok : Token}
    (h : s.next pos tok = some s') (htok : tok.isOpenEnded) : s'.expected ⊆ closers := by
  cases next_cases h with
  | value h | firstItem h => exact expected_of_startValue h htok
  | _ => cases htok

lemma exists_startValue_iff {stack : List Frame} {pos : Position} {tok : Token} :
    (∃ s, startValue stack pos tok = some s) ↔ tok.kind ∈ valueKinds := by
  cases tok <;> simp [startValue, Token.kind, valueKinds]

/-- The tokens that lead on are exactly those of an expected kind. -/
lemma exists_next_iff {s : ParseState} {pos : Position} {tok : Token} :
    (∃ s', s.next pos tok = some s') ↔ tok.kind ∈ s.expected := by
  cases s with
  | value stack => exact exists_startValue_iff
  | firstItem start stack =>
    -- at the first item of an array only the closing bracket is no start of a value
    by_cases htok : tok = .closeBracket
    · subst htok
      simp [next, expected, Token.kind]
    · have hnext : (firstItem start stack).next pos tok =
          startValue (.array start [] :: stack) pos tok := by
        cases tok <;> first | rfl | exact (htok rfl).elim
      have hkind : tok.kind ≠ .closeBracket := by
        cases tok <;> first | exact (htok rfl).elim | simp [Token.kind]
      rw [hnext, exists_startValue_iff, expected, List.mem_append, List.mem_singleton,
        or_iff_left hkind]
  | _ => cases tok <;> simp [next, expected, Token.kind]

/-! ### Runs -/

/-- The state after tokens, each with the position at which it starts, with at most `limit`
containers open at a time. -/
def run (limit : Nat) (s : ParseState) : List (Position × Token) → Option ParseState
  | [] => some s
  | (pos, tok) :: ts => do
    let s' ← s.next pos tok
    if limit < s'.depth then none else run limit s' ts

lemma run_cons_eq_some {limit : Nat} {s s' : ParseState} {pos : Position} {tok : Token}
    {ts : List (Position × Token)} :
    run limit s ((pos, tok) :: ts) = some s' ↔
      ∃ s₁, s.next pos tok = some s₁ ∧ s₁.depth ≤ limit ∧ run limit s₁ ts = some s' := by
  simp only [run, bind, Option.bind_eq_some_iff]
  simp

lemma run_append_eq_some {limit : Nat} {s s' : ParseState} {ts us : List (Position × Token)} :
    run limit s (ts ++ us) = some s' ↔
      ∃ s₁, run limit s ts = some s₁ ∧ run limit s₁ us = some s' := by
  induction ts generalizing s with
  | nil => simp [run]
  | cons t ts ih =>
    obtain ⟨pos, tok⟩ := t
    simp only [List.cons_append, run_cons_eq_some, ih]
    grind

/-- A run reads its tokens. -/
lemma tokens_of_run {limit : Nat} {s s' : ParseState} {ts : List (Position × Token)}
    (hs : s.Begun) (h : run limit s ts = some s') : s'.tokens = s.tokens ++ ts.map Prod.snd := by
  induction ts generalizing s with
  | nil =>
    cases h
    simp
  | cons t ts ih =>
    obtain ⟨pos, tok⟩ := t
    obtain ⟨s₁, hnext, -, hrun⟩ := run_cons_eq_some.mp h
    rw [ih (begun_of_next hnext) hrun, tokens_of_next hs hnext]
    simp

lemma run_singleton {limit : Nat} {s s' : ParseState} {pos : Position} {tok : Token}
    (h : s.next pos tok = some s') (hdepth : s'.depth ≤ limit) :
    run limit s [(pos, tok)] = some s' :=
  run_cons_eq_some.mpr ⟨s', h, hdepth, rfl⟩

/-- Before its first item an array waits for a value, unless it is closed at once. -/
lemma run_firstItem {limit : Nat} {start : Position} {stack : List Frame} {s : ParseState}
    {ts : List (Position × Token)} (hts : ts ≠ [])
    (h : run limit (value (.array start [] :: stack)) ts = some s) :
    run limit (firstItem start stack) ts = some s := by
  obtain ⟨⟨pos, tok⟩, ts, rfl⟩ := List.exists_cons_of_ne_nil hts
  obtain ⟨s₁, hnext, hdepth, hrun⟩ := run_cons_eq_some.mp h
  refine run_cons_eq_some.mpr ⟨s₁, ?_, hdepth, hrun⟩
  cases tok <;> first | exact hnext | cases hnext

/-- Before its first member an object waits for a name, unless it is closed at once. -/
lemma run_firstMember {limit : Nat} {start : Position} {stack : List Frame} {s : ParseState}
    {ts : List (Position × Token)} (hts : ts ≠ [])
    (h : run limit (nextMember start [] stack) ts = some s) :
    run limit (firstMember start stack) ts = some s := by
  obtain ⟨⟨pos, tok⟩, ts, rfl⟩ := List.exists_cons_of_ne_nil hts
  obtain ⟨s₁, hnext, hdepth, hrun⟩ := run_cons_eq_some.mp h
  refine run_cons_eq_some.mpr ⟨s₁, ?_, hdepth, hrun⟩
  cases tok <;> first | exact hnext | cases hnext

end ParseState

/-! ### Values are read -/

open ParseState

/-- Where a value is waited for, its tokens lead to the state behind it: a tree that differs in
positions at most has been read. -/
def Tree.Readable (t : Tree) : Prop :=
  ∀ limit stack ts, stack.length + t.json.height ≤ limit → ts.map Prod.snd = t.tokens →
    ∃ t' : Tree, t'.json = t.json ∧ run limit (value stack) ts = some (afterValue t' stack)

lemma readable_of_startValue {t : Tree} {tok : Token} (htok : t.tokens = [tok])
    (h : ∀ pos stack, ∃ t' : Tree, t'.json = t.json ∧
      startValue stack pos tok = some (afterValue t' stack)) : t.Readable := by
  intro limit stack ts hlimit hts
  rw [htok, List.map_eq_singleton_iff] at hts
  obtain ⟨⟨pos, _⟩, rfl, rfl⟩ := hts
  obtain ⟨t', ht', hstart⟩ := h pos stack
  refine ⟨t', ht', run_singleton hstart ?_⟩
  rw [depth_afterValue]
  omega

lemma run_items {items : List Tree} (hitems : ∀ t ∈ items, t.Readable) (hne : items ≠ [])
    {limit : Nat} {start : Position} {stack : List Frame}
    (hlimit : ∀ t ∈ items, stack.length + 1 + t.json.height ≤ limit) (before : List Tree)
    {ts : List (Position × Token)} (hts : ts.map Prod.snd = separated (items.map Tree.tokens)) :
    ∃ items' : List Tree, items'.map Tree.json = items.map Tree.json ∧
      run limit (value (.array start before :: stack)) ts =
        some (afterItem start (items'.reverse ++ before) stack) := by
  -- on the items that are left; those that were read stand in the frame in reverse
  induction items generalizing before ts with
  | nil => exact (hne rfl).elim
  | cons t items ih =>
    obtain ⟨ht, hitems⟩ := List.forall_mem_cons.mp hitems
    obtain ⟨htlimit, hlimit⟩ := List.forall_mem_cons.mp hlimit
    cases items with
    | nil =>
      rw [List.map_singleton, separated_singleton] at hts
      obtain ⟨t', ht', hrun⟩ := ht limit (.array start before :: stack) ts htlimit hts
      exact ⟨[t'], by simp [ht'], hrun⟩
    | cons u items =>
      rw [List.map_cons, List.map_cons, separated_cons_cons, List.map_eq_append_iff] at hts
      obtain ⟨ts₁, _, rfl, hts₁, hts⟩ := hts
      obtain ⟨⟨pos, _⟩, ts₂, rfl, rfl, hts₂⟩ := List.map_eq_cons_iff.mp hts
      obtain ⟨t', ht', hrun⟩ := ht limit (.array start before :: stack) ts₁ htlimit hts₁
      obtain ⟨items', hitems', hrun'⟩ := ih hitems (List.cons_ne_nil _ _) hlimit (t' :: before) hts₂
      refine ⟨t' :: items', by rw [List.map_cons, ht', hitems']; rfl, ?_⟩
      refine run_append_eq_some.mpr ⟨_, hrun, run_cons_eq_some.mpr ⟨_, rfl, ?_, ?_⟩⟩
      · simp only [depth, List.length_cons]
        omega
      · rw [hrun']
        simp

lemma run_member {m : Key × Tree} (hm : m.2.Readable) {limit : Nat} {start : Position}
    {stack : List Frame} (hlimit : stack.length + 1 + m.2.json.height ≤ limit)
    (before : List (Key × Tree)) {ts : List (Position × Token)}
    (hts : ts.map Prod.snd = memberTokens m) :
    ∃ m' : Key × Tree, m'.1.2 = m.1.2 ∧ m'.2.json = m.2.json ∧
      run limit (nextMember start before stack) ts =
        some (afterMember start (m' :: before) stack) := by
  obtain ⟨⟨pos, _⟩, us, rfl, rfl, hus⟩ := List.map_eq_cons_iff.mp hts
  obtain ⟨⟨pos', _⟩, vs, rfl, rfl, hvs⟩ := List.map_eq_cons_iff.mp hus
  obtain ⟨t', ht', hrun⟩ :=
    hm limit (.object start before (pos, m.1.2) :: stack) vs hlimit hvs
  refine ⟨((pos, m.1.2), t'), rfl, ht', ?_⟩
  refine run_cons_eq_some.mpr ⟨_, rfl, ?_, run_cons_eq_some.mpr ⟨_, rfl, ?_, hrun⟩⟩
  · simp only [depth]
    omega
  · simp only [depth, List.length_cons]
    omega

lemma run_members {members : List (Key × Tree)} (hmembers : ∀ m ∈ members, m.2.Readable)
    (hne : members ≠ []) {limit : Nat} {start : Position} {stack : List Frame}
    (hlimit : ∀ m ∈ members, stack.length + 1 + m.2.json.height ≤ limit)
    (before : List (Key × Tree)) {ts : List (Position × Token)}
    (hts : ts.map Prod.snd = separated (members.map memberTokens)) :
    ∃ members' : List (Key × Tree),
      members'.map (fun m => (m.1.2, m.2.json)) = members.map (fun m => (m.1.2, m.2.json)) ∧
      run limit (nextMember start before stack) ts =
        some (afterMember start (members'.reverse ++ before) stack) := by
  -- on the members that are left, as for items
  induction members generalizing before ts with
  | nil => exact (hne rfl).elim
  | cons m members ih =>
    obtain ⟨hm, hmembers⟩ := List.forall_mem_cons.mp hmembers
    obtain ⟨hmlimit, hlimit⟩ := List.forall_mem_cons.mp hlimit
    cases members with
    | nil =>
      rw [List.map_singleton, separated_singleton] at hts
      obtain ⟨m', hkey, hjson, hrun⟩ := run_member hm hmlimit before hts
      exact ⟨[m'], by simp [hkey, hjson], hrun⟩
    | cons u members =>
      rw [List.map_cons, List.map_cons, separated_cons_cons, List.map_eq_append_iff] at hts
      obtain ⟨ts₁, _, rfl, hts₁, hts⟩ := hts
      obtain ⟨⟨pos, _⟩, ts₂, rfl, rfl, hts₂⟩ := List.map_eq_cons_iff.mp hts
      obtain ⟨m', hkey, hjson, hrun⟩ := run_member hm hmlimit before hts₁
      obtain ⟨members', hmembers', hrun'⟩ :=
        ih hmembers (List.cons_ne_nil _ _) hlimit (m' :: before) hts₂
      refine ⟨m' :: members', by rw [List.map_cons, hkey, hjson, hmembers']; rfl, ?_⟩
      refine run_append_eq_some.mpr ⟨_, hrun, run_cons_eq_some.mpr ⟨_, rfl, ?_, ?_⟩⟩
      · simp only [depth]
        omega
      · rw [hrun']
        simp

lemma run_array {items : List Tree} (hitems : ∀ t ∈ items, t.Readable) {limit : Nat}
    (start pos : Position) {stack : List Frame} (hstack : stack.length ≤ limit)
    (hlimit : ∀ t ∈ items, stack.length + 1 + t.json.height ≤ limit)
    {ts : List (Position × Token)} (hts : ts.map Prod.snd = separated (items.map Tree.tokens)) :
    ∃ items' : List Tree, items'.map Tree.json = items.map Tree.json ∧
      run limit (firstItem start stack) (ts ++ [(pos, .closeBracket)]) =
        some (afterValue (.array start items') stack) := by
  -- an empty container closes in a state of its own
  by_cases hne : items = []
  · subst hne
    obtain rfl : ts = [] := List.map_eq_nil_iff.mp hts
    refine ⟨[], rfl, run_singleton rfl ?_⟩
    rwa [depth_afterValue]
  · obtain ⟨items', hitems', hrun⟩ := run_items hitems hne hlimit [] hts
    have hts : ts ≠ [] := by
      rintro rfl
      cases hrun
    refine ⟨items', hitems', run_append_eq_some.mpr ⟨_, run_firstItem hts hrun, ?_⟩⟩
    have hreverse : (items'.reverse ++ []).reverse = items' := by simp
    refine run_singleton (congrArg (fun l => some (afterValue (.array start l) stack)) hreverse) ?_
    rwa [depth_afterValue]

lemma run_object {members : List (Key × Tree)} (hmembers : ∀ m ∈ members, m.2.Readable)
    {limit : Nat} (start pos : Position) {stack : List Frame} (hstack : stack.length ≤ limit)
    (hlimit : ∀ m ∈ members, stack.length + 1 + m.2.json.height ≤ limit)
    {ts : List (Position × Token)} (hts : ts.map Prod.snd = separated (members.map memberTokens)) :
    ∃ members' : List (Key × Tree),
      members'.map (fun m => (m.1.2, m.2.json)) = members.map (fun m => (m.1.2, m.2.json)) ∧
      run limit (firstMember start stack) (ts ++ [(pos, .closeBrace)]) =
        some (afterValue (.object start members') stack) := by
  by_cases hne : members = []
  · subst hne
    obtain rfl : ts = [] := List.map_eq_nil_iff.mp hts
    refine ⟨[], rfl, run_singleton rfl ?_⟩
    rwa [depth_afterValue]
  · obtain ⟨members', hmembers', hrun⟩ := run_members hmembers hne hlimit [] hts
    have hts : ts ≠ [] := by
      rintro rfl
      cases hrun
    refine ⟨members', hmembers', run_append_eq_some.mpr ⟨_, run_firstMember hts hrun, ?_⟩⟩
    have hreverse : (members'.reverse ++ []).reverse = members' := by simp
    refine run_singleton (congrArg (fun l => some (afterValue (.object start l) stack)) hreverse) ?_
    rwa [depth_afterValue]

/-- Every value is read from its tokens, as far as its height allows. -/
lemma Tree.readable (t : Tree) : t.Readable := by
  -- on the tree, for every stack it may be read on: the room left for open containers is what is
  -- below the limit
  induction t using Tree.inductionOn with
  | null s =>
    exact readable_of_startValue (by rw [tokens]) fun pos stack => ⟨.null pos, by simp [json], rfl⟩
  | bool s b =>
    cases b with
    | false =>
      exact readable_of_startValue (by rw [tokens, if_neg]; nofun)
        fun pos stack => ⟨.bool pos false, by simp [json], rfl⟩
    | true =>
      exact readable_of_startValue (by rw [tokens, if_pos rfl])
        fun pos stack => ⟨.bool pos true, by simp [json], rfl⟩
  | number s l =>
    exact readable_of_startValue (by rw [tokens])
      fun pos stack => ⟨.number pos l, by simp [json], rfl⟩
  | string s t =>
    exact readable_of_startValue (by rw [tokens])
      fun pos stack => ⟨.string pos t, by simp [json], rfl⟩
  | array s items ih =>
    -- the opening bracket takes one from the limit, which is why the items are lower than the array
    intro limit stack ts hlimit hts
    rw [json] at hlimit
    have hheight : ∀ t ∈ items, stack.length + 1 + t.json.height ≤ limit := by
      intro t ht
      have := Json.height_lt_of_mem_parts (j := .array (items.map Tree.json))
        (List.mem_map_of_mem ht)
      omega
    have hpos := Json.height_pos (.array (items.map Tree.json))
    rw [tokens] at hts
    obtain ⟨⟨pos, _⟩, us, rfl, rfl, hus⟩ := List.map_eq_cons_iff.mp hts
    obtain ⟨vs, _, rfl, hvs, hclose⟩ := List.map_eq_append_iff.mp hus
    obtain ⟨⟨pos', _⟩, rfl, rfl⟩ := List.map_eq_singleton_iff.mp hclose
    obtain ⟨items', hitems', hrun⟩ := run_array ih pos pos' (by omega) hheight hvs
    refine ⟨.array pos items', by rw [json, json, hitems'],
      run_cons_eq_some.mpr ⟨_, rfl, ?_, hrun⟩⟩
    simp only [depth]
    omega
  | object s members ih =>
    intro limit stack ts hlimit hts
    rw [json] at hlimit
    have hheight : ∀ m ∈ members, stack.length + 1 + m.2.json.height ≤ limit := by
      intro m hm
      have : m.2.json.height < _ := Json.height_lt_of_mem_parts
        (j := .object (members.map fun m => (m.1.2, m.2.json)))
        (List.mem_map.mpr ⟨_, List.mem_map_of_mem hm, rfl⟩)
      omega
    have hpos := Json.height_pos (.object (members.map fun m => (m.1.2, m.2.json)))
    rw [tokens_object] at hts
    obtain ⟨⟨pos, _⟩, us, rfl, rfl, hus⟩ := List.map_eq_cons_iff.mp hts
    obtain ⟨vs, _, rfl, hvs, hclose⟩ := List.map_eq_append_iff.mp hus
    obtain ⟨⟨pos', _⟩, rfl, rfl⟩ := List.map_eq_singleton_iff.mp hclose
    obtain ⟨members', hmembers', hrun⟩ :=
      run_object ih pos pos' (by omega) hheight hvs
    refine ⟨.object pos members', by rw [json, json, hmembers'],
      run_cons_eq_some.mpr ⟨_, rfl, ?_, hrun⟩⟩
    simp only [depth]
    omega

end Clausal
