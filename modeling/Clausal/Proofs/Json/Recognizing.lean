import Clausal.Proofs.Json.Matching

/-!
# Matching values and whole texts

The alternatives of a value start with different tokens, and the containers among them hold values
again. With ten calls for each container that may be open there is room for the whole text.
-/

namespace Clausal

open Peg (Expr Missed ParseNode Result State matchAll matchFirst)

variable {t : Text} {limit : Nat} {fits : Prop} {s : ParseState} {b r : Text}
  {m : Missed TokenKind}

/-! ### What containers give -/

lemma Outcome.mapM_map {α β γ : Type} (f : α → Outcome β) (g : β → γ) (as : List α) :
    (as.mapM fun a => g <$> f a) = List.map g <$> as.mapM f := by
  induction as with
  | nil => rfl
  | cons a as ih =>
    rw [List.mapM_cons, List.mapM_cons, ih]
    cases f a <;> cases as.mapM f <;> rfl

namespace Tree

lemma resolveItems_eq (before : List Located) (items : List Tree) :
    resolveItems before items = (before.reverse ++ ·) <$> items.mapM resolve := by
  induction items generalizing before with
  | nil => simp [resolveItems, Outcome.ok_eq_pure]
  | cons t items ih =>
    rw [resolveItems, List.mapM_cons]
    cases ht : resolve t with
    | error e => rfl
    | ok l =>
      change resolveItems (l :: before) items = _
      rw [ih]
      cases items.mapM resolve <;> simp [Outcome.ok_bind]

lemma resolveMembers_eq (before : List (Key × Located)) (members : List (Key × Tree)) :
    resolveMembers before members =
      (before.reverse ++ ·) <$> members.mapM fun m => (m.1, ·) <$> m.2.resolve := by
  induction members generalizing before with
  | nil => simp [resolveMembers, Outcome.ok_eq_pure]
  | cons m members ih =>
    rw [resolveMembers, List.mapM_cons]
    cases hm : resolve m.2 with
    | error e => rfl
    | ok l =>
      change resolveMembers ((m.1, l) :: before) members = _
      rw [ih]
      cases members.mapM fun m => (m.1, ·) <$> m.2.resolve <;> simp [Outcome.ok_bind]

/-- What visiting the node of a member gives. -/
def visitedMember (m : Key × Tree) : Outcome Visited := Visited.member m.1 <$> m.2.resolve

lemma flatten_of_visited {tree : Tree} {v : Visited} (h : tree.visited = .ok v) :
    Visited.flatten [v] = [v] := by
  obtain ⟨l, -, rfl⟩ := Outcome.map_eq_ok.mp h
  rfl

lemma flatten_of_visitedMember {m : Key × Tree} {v : Visited} (h : visitedMember m = .ok v) :
    Visited.flatten [v] = [v] := by
  obtain ⟨l, -, rfl⟩ := Outcome.map_eq_ok.mp h
  rfl

lemma visited_array (start : Position) (items : List Tree) :
    (items.mapM visited >>= fun vs => Visited.ofRule start vs .array) =
      (array start items).visited := by
  -- what the visitor keeps of the parts of an array are their values, in order
  have hvalues (ls : List Located) : (Visited.flatten (ls.map .value)).filterMap Visited.value? =
      ls := by
    induction ls with
    | nil => rfl
    | cons l ls ih => exact congrArg (l :: ·) ih
  rw [visited, resolve, resolveItems_eq]
  change (items.mapM fun tree => Visited.value <$> tree.resolve) >>= _ = _
  rw [Outcome.mapM_map]
  cases items.mapM resolve with
  | error e => rfl
  | ok ls => exact congrArg (fun ls => Except.ok (Visited.value (.array start ls))) (hvalues ls)

lemma visited_object (start : Position) (members : List (Key × Tree)) :
    (members.mapM visitedMember >>= fun vs => Visited.ofRule start vs .object) =
      (object start members).visited := by
  have hmembers (ms : List (Key × Located)) :
      (Visited.flatten (ms.map fun m => .member m.1 m.2)).filterMap Visited.member? = ms := by
    induction ms with
    | nil => rfl
    | cons m ms ih => exact congrArg (m :: ·) ih
  rw [visited, resolve, resolveMembers_eq]
  change (members.mapM fun m => Visited.member m.1 <$> m.2.resolve) >>= _ = _
  have hmap : (members.mapM fun m => Visited.member m.1 <$> m.2.resolve) =
      members.mapM fun m => (fun p : Key × Located => Visited.member p.1 p.2) <$>
        (m.1, ·) <$> m.2.resolve := by
    simp only [Functor.map_map]
  rw [hmap, Outcome.mapM_map]
  cases members.mapM fun m => (m.1, ·) <$> m.2.resolve with
  | error e => rfl
  | ok ms =>
    change Visited.ofRule start (ms.map _) .object = Visited.value <$> (do
      let members ← Located.distinctMembers [] ms
      return .object start members)
    rw [Visited.ofRule, hmembers]
    cases Located.distinctMembers [] ms <;> rfl

end Tree

/-- Arrays are read inside the containers `stack`. -/
lemma encloses_array (stack : List Frame) : Encloses stack .array .value .openBracket .closeBracket
    ParseState.valueKinds (ParseState.firstItem · stack) (ParseState.afterItem · · stack)
    (fun start items => .value (.array start items :: stack)) Tree.array Tree.visited where
  body := rfl
  separates start := {
    expected _ := rfl
    next _ _ := rfl
    close_ne := by decide
    give_flatten _ _ := Tree.flatten_of_visited }
  expected _ := rfl
  kinds_ne := by decide
  marks k hk := by rcases hk with rfl | rfl <;> exact ⟨by decide, fun _ _ => rfl⟩
  close_first start pos tok s hk hs := by
    cases tok <;> first | exact (Option.some.inj hs).symm | cases hk
  close_after start items pos tok s hk hs := by
    cases tok with
    | closeBracket =>
      rw [← Option.some.inj hs, List.reverse_reverse]
    | _ => cases hk
  visit := Tree.visited_array

/-- Objects are read inside the containers `stack`. -/
lemma encloses_object (stack : List Frame) : Encloses stack .object .member .openBrace .closeBrace
    [.string] (ParseState.firstMember · stack) (ParseState.afterMember · · stack)
    (ParseState.nextMember · · stack) Tree.object Tree.visitedMember where
  body := rfl
  separates start := {
    expected _ := rfl
    next _ _ := rfl
    close_ne := by decide
    give_flatten _ _ := Tree.flatten_of_visitedMember }
  expected _ := rfl
  kinds_ne := by decide
  marks k hk := by rcases hk with rfl | rfl <;> exact ⟨by decide, fun _ _ => rfl⟩
  close_first start pos tok s hk hs := by
    cases tok <;> first | exact (Option.some.inj hs).symm | cases hk
  close_after start items pos tok s hk hs := by
    cases tok with
    | closeBrace =>
      rw [← Option.some.inj hs, List.reverse_reverse]
    | _ => cases hk
  visit := Tree.visited_object

/-! ### Members -/

/-- The node of a member gives its name and what the node of its value gives. -/
lemma ofNode_member {place : Nat → Position} {offset offset' : Nat} {k y w : Text} {n : Nat}
    {node : ParseNode TokenKind Rule} {tree : Tree}
    (hread : Token.read? .string y = some (.string k, n))
    (hnode : Visited.ofNode place node = tree.visited) :
    Visited.ofNode place (.rule .member
      [.terminal .string offset y, .terminal .colon offset' w, node]) =
        Tree.visitedMember ((place offset, k), tree) := by
  rw [ofNode_rule, gathered_cons, gathered_cons, gathered_cons, gathered_nil, hnode, Visited.ofNode,
    Visited.ofNode, Visited.ofTerminal, hread, Tree.visited, Tree.visitedMember]
  cases tree.resolve <;> rfl

/-- A name, a colon and a value, which is matched as `hvalue` says. -/
lemma starts_member {n : Nat} {start : Position} {members : List (Key × Tree)}
    {stack : List Frame} (ht : t = b ++ r) (hm : m.offset < b.length)
    (hstring : .string ∈ s.expected) (hroom : fits → 3 ≤ n)
    (hnext : ∀ pos k, s.next pos (.string k) = some (.afterKey start members (pos, k) stack))
    (hvalue : ∀ key b r m, t = b ++ r → m.offset < b.length → stack.length + 1 ≤ limit →
      Continues t limit fits (.value (.object start members key :: stack)) b r
        (ValueLeads t.place (.object start members key :: stack))
        (Rule.grammar.match? (n - 2) (.rule .value) ⟨b.length, r, m⟩)) :
    Starts t limit fits s b r [.string] m
      (OneLeads t.place (fun a => .afterMember start (a :: members) stack) Tree.visitedMember)
      (Rule.grammar.match? n (.rule .member) ⟨b.length, r, m⟩) := by
  -- the room is used up by the rule and by the sequence
  match n, hroom with
  | 0, hroom | 1, hroom => exact .overflow fun hfits => absurd (hroom hfits) (by decide)
  | n + 2, hroom =>
    have hpos : fits → 0 < n := fun hfits => by have := hroom hfits; omega
    rw [Peg.Grammar.match?]
    change Starts t limit fits s b r [.string] m _ (Option.map (Result.wrap Rule.member)
      (matchAll (Rule.grammar.match? n) [.terminal .string, .terminal .colon, .rule .value] _))
    have hname : Starts t limit fits s b r [.string] m (TerminalLeads s b r .string)
        (Rule.grammar.match? n (.terminal .string) ⟨b.length, r, m⟩) :=
      starts_terminal hstring (by decide) (Nat.le_trans hm.le (by simp)) hpos
    refine .wrap (hname.cons fun s' y r' nodes m' split depth missed goal => ?_)
    obtain ⟨tok, name, hk, rfl, hread, hs'⟩ := goal
    cases tok with
    | string k =>
      obtain rfl := Option.some.inj ((hnext _ k).symm.trans hs')
      have ht' : t = (b ++ y) ++ r' := by rw [ht, split, List.append_assoc]
      have hcolon {s' : ParseState} (hs : .colon ∈ s'.expected) :
          Starts t limit fits s' (b ++ y) r' [.colon] m' (TerminalLeads s' (b ++ y) r' .colon)
            (Rule.grammar.match? n (.terminal .colon) ⟨(b ++ y).length, r', m'⟩) :=
        starts_terminal hs (by decide) (Nat.le_trans missed.le (by simp)) hpos
      refine ((hcolon (by simp [ParseState.expected])).continues ht' missed).cons
        fun s'' z r'' nodes m'' split' depth' missed' goal => ?_
      obtain ⟨tok, w, hk, rfl, -, hs''⟩ := goal
      cases tok with
      | colon =>
        obtain rfl := Option.some.inj hs''
        rw [matchAll_singleton]
        refine (hvalue _ _ _ _ (by rw [ht', split', ← List.append_assoc]) missed' depth').mono
          fun nodes s' hnodes => ?_
        obtain ⟨node, tree, rfl, rfl, hnode⟩ := hnodes
        refine ⟨_, (((b ++ r.leading).endPosition, k), tree), rfl, rfl, ?_⟩
        rw [← Text.place_leading ht]
        exact ofNode_member hread hnode
      | _ => cases hk
    | _ => cases hk

/-! ### Values -/

/-- In this state a value may start, inside the containers `stack`. -/
structure ParseState.AtValue (s : ParseState) (stack : List Frame) : Prop where
  expected : valueKinds ⊆ s.expected
  next : ∀ pos tok, tok.kind ∈ valueKinds → s.next pos tok = startValue stack pos tok

lemma ParseState.atValue_value (stack : List Frame) : (value stack).AtValue stack :=
  ⟨List.Subset.refl _, fun _ _ _ => rfl⟩

lemma ParseState.atValue_firstItem (start : Position) (stack : List Frame) :
    (firstItem start stack).AtValue (.array start [] :: stack) where
  expected := by simp [expected]
  next pos tok hk := by cases tok <;> first | rfl | simp [Token.kind, valueKinds] at hk

/-- With room for `n` calls values that may start inside the containers `stack` are matched. -/
def MatchesValues (t : Text) (limit : Nat) (fits : Prop) (n : Nat) (stack : List Frame) : Prop :=
  ∀ (s : ParseState) (b r : Text) (m : Missed TokenKind), t = b ++ r →
    m.offset ≤ (b ++ r.leading).length → s.AtValue stack →
      Starts t limit fits s b r ParseState.valueKinds m (ValueLeads t.place stack)
        (Rule.grammar.match? n (.rule .value) ⟨b.length, r, m⟩)

lemma MatchesValues.continues {n : Nat} {stack : List Frame}
    (h : MatchesValues t limit fits n stack) (ht : t = b ++ r) (hm : m.offset < b.length) :
    Continues t limit fits (.value stack) b r (ValueLeads t.place stack)
      (Rule.grammar.match? n (.rule .value) ⟨b.length, r, m⟩) :=
  (h _ _ _ _ ht (Nat.le_trans hm.le (by simp)) (ParseState.atValue_value stack)).continues ht hm

section Alternatives

variable {n : Nat} {stack : List Frame}

lemma alternative_scalar {k : TokenKind} (ht : t = b ++ r) (hs : s.AtValue stack) (hn : 0 < n)
    (hk : k ∈ [.string, .number, .true, .false, .null]) :
    Alternative t limit fits s b r (ValueLeads t.place stack) n (.terminal k) k := by
  have hvalue : k ∈ ParseState.valueKinds := by
    revert hk
    cases k <;> decide
  have hend : k ≠ .endOfText := by
    rintro rfl
    simp at hk
  have hterminal : Alternative t limit fits s b r (TerminalLeads s b r k) n (.terminal k) k :=
    alternative_terminal (hs.expected hvalue) hend hn
  refine ⟨fun m hm => (hterminal.starts m hm).mono fun nodes s' hnodes => ?_, hterminal.misses⟩
  obtain ⟨tok, y, rfl, rfl, hread, hs'⟩ := hnodes
  have hplace := Text.place_leading ht
  rw [hs.next _ _ hvalue] at hs'
  -- five kinds of scalars, each with the value that its node gives
  cases tok with
  | string k =>
    change Token.read? .string y = _ at hread
    refine ⟨_, .string _ k, rfl, (Option.some.inj hs').symm, ?_⟩
    rw [Visited.ofNode, Token.kind, Visited.ofTerminal, hread, hplace]
    rfl
  | number l =>
    have hnumber : NumberLiteral.read? y = some l := by
      obtain ⟨l', hl', heq⟩ := Option.map_eq_some_iff.mp hread
      rw [hl', Token.number.inj (Prod.mk.inj heq).1]
    refine ⟨_, .number _ l, rfl, (Option.some.inj hs').symm, ?_⟩
    rw [Visited.ofNode, Token.kind, Visited.ofTerminal, hnumber, hplace]
    rfl
  | true => exact ⟨_, .bool _ true, rfl, (Option.some.inj hs').symm, by rw [← hplace]; rfl⟩
  | false => exact ⟨_, .bool _ false, rfl, (Option.some.inj hs').symm, by rw [← hplace]; rfl⟩
  | null => exact ⟨_, .null _, rfl, (Option.some.inj hs').symm, by rw [← hplace]; rfl⟩
  | _ => simp [Token.kind] at hk

/-- In an array there is room for items if there is for ten calls. -/
lemma alternative_array (ht : t = b ++ r) (hs : s.AtValue stack)
    (hroom : stack.length + 1 ≤ limit → fits → 10 ≤ n)
    (hinner : stack.length + 1 ≤ limit → ∀ f n', n ≤ n' + 5 → n' ≤ n →
      MatchesValues t limit fits n' (f :: stack)) :
    Alternative t limit fits s b r (ValueLeads t.place stack) (n + 3) (.rule .array)
      .openBracket := by
  refine alternative_container (encloses_array stack) ht (hs.expected (by decide)) ?_ (by omega)
    (fun _ hdepth hfits => Nat.le_trans (by decide) (Nat.le_succ_of_le (hroom hdepth hfits))) ?_ ?_
  · intro pos tok s' hk hs'
    cases tok with
    | openBracket => exact (Option.some.inj ((hs.next pos _ (by decide)).symm.trans hs')).symm
    | _ => cases hk
  · intro start b r m ht hm hdepth
    exact hinner hdepth _ (n + 1 - 2) (by omega) (by omega) _ _ _ _ ht
      (Nat.le_trans hm.le (by simp)) (ParseState.atValue_firstItem start stack)
  · intro start items b r m ht hm hdepth
    exact (hinner hdepth _ (n + 1 - 4) (by omega) (by omega)).continues ht hm

/-- In an object there is room for members if there is for ten calls. -/
lemma alternative_object (ht : t = b ++ r) (hs : s.AtValue stack)
    (hroom : stack.length + 1 ≤ limit → fits → 10 ≤ n)
    (hinner : stack.length + 1 ≤ limit → ∀ f n', n ≤ n' + 5 → n' ≤ n →
      MatchesValues t limit fits n' (f :: stack)) :
    Alternative t limit fits s b r (ValueLeads t.place stack) (n + 3) (.rule .object)
      .openBrace := by
  refine alternative_container (encloses_object stack) ht (hs.expected (by decide)) ?_ (by omega)
    (fun _ hdepth hfits => Nat.le_trans (by decide) (Nat.le_succ_of_le (hroom hdepth hfits))) ?_ ?_
  · intro pos tok s' hk hs'
    cases tok with
    | openBrace => exact (Option.some.inj ((hs.next pos _ (by decide)).symm.trans hs')).symm
    | _ => cases hk
  -- the members of an object start with a name, the first as those after it
  · intro start b r m ht hm hdepth
    refine starts_member ht hm (by simp [ParseState.expected]) (fun hfits => ?_) (fun _ _ => rfl)
      fun key b r m ht hm hdepth =>
        (hinner hdepth _ (n + 1 - 2 - 2) (by omega) (by omega)).continues ht hm
    have := hroom hdepth hfits
    omega
  · intro start members b r m ht hm hdepth
    refine (starts_member ht hm (by simp [ParseState.expected]) (fun hfits => ?_) (fun _ _ => rfl)
      fun key b r m ht hm hdepth =>
        (hinner hdepth _ (n + 1 - 4 - 2) (by omega) (by omega)).continues ht hm).continues ht hm
    have := hroom hdepth hfits
    omega

end Alternatives

/-- The node of a value gives what the node in it does. -/
lemma valueLeads_value {stack : List Frame} {nodes : List (ParseNode TokenKind Rule)}
    (h : ValueLeads t.place stack nodes s) :
    ValueLeads t.place stack [.rule .value nodes] s := by
  obtain ⟨node, tree, rfl, rfl, hnode⟩ := h
  refine ⟨_, tree, rfl, rfl, ?_⟩
  rw [ofNode_rule, gathered_cons, gathered_nil, hnode]
  cases hv : tree.visited with
  | error e => rfl
  | ok v =>
    obtain ⟨l, -, rfl⟩ := Outcome.map_eq_ok.mp hv
    rfl

/-- Inside each container there has to be room for ten calls less. -/
lemma matchesValues (n : Nat) {stack : List Frame} (hdepth : stack.length ≤ limit)
    (hroom : fits → 10 * limit + 5 ≤ n + 10 * stack.length) :
    MatchesValues t limit fits n stack := by
  -- on the room: the items of a container are matched with less of it
  induction n using Nat.strong_induction_on generalizing stack with
  | _ n ih =>
  intro s b r m ht hm hs
  match n, hroom with
  | 0, hroom | 1, hroom | 2, hroom | 3, hroom | 4, hroom =>
    exact .overflow fun hfits => by have := hroom hfits; omega
  | n + 5, hroom =>
    have hten (hlimit : stack.length + 1 ≤ limit) (hfits : fits) : 10 ≤ n := by
      have := hroom hfits
      omega
    have hinner (hlimit : stack.length + 1 ≤ limit) (f : Frame) (n' : Nat) (hn' : n ≤ n' + 5)
        (hlt : n' ≤ n) : MatchesValues t limit fits n' (f :: stack) := by
      refine ih n' (by omega) (show (f :: stack).length ≤ limit from hlimit) fun hfits => ?_
      have := hroom hfits
      rw [List.length_cons]
      omega
    -- the seven alternatives, in the order of the grammar
    have hscalar {k : TokenKind} (hk : k ∈ [.string, .number, .true, .false, .null]) :
        Alternative t limit fits s b r (ValueLeads t.place stack) (n + 3) (.terminal k) k :=
      alternative_scalar ht hs (by omega) hk
    have hfirst : Starts t limit fits s b r ParseState.valueKinds m (ValueLeads t.place stack)
        (matchFirst (Rule.grammar.match? (n + 3)) [.rule .object, .rule .array, .terminal .string,
          .terminal .number, .terminal .true, .terminal .false, .terminal .null]
            ⟨b.length, r, m⟩) := by
      refine starts_first ?_ (by decide) hm
      have hobject := alternative_object ht hs hten hinner
      have harray := alternative_array ht hs hten hinner
      exact .cons hobject (.cons harray (.cons (hscalar (by decide)) (.cons (hscalar (by decide))
        (.cons (hscalar (by decide)) (.cons (hscalar (by decide)) (.cons (hscalar (by decide))
          .nil))))))
    exact .wrap (hfirst.mono fun _ _ => valueLeads_value)

/-! ### Whole texts -/

/-- What an answer of the grammar says of reading token by token. -/
inductive Answers (t : Text) (limit : Nat) (fits : Prop) :
    Option (Peg.Answer TokenKind Rule) → Prop
  | refused {x : Option (Peg.Answer TokenKind Rule)}
      (reading : Tree.read limit t = refuse .nestingTooDeepToRead) : Answers t limit fits x
  | overflow (room : ¬fits) : Answers t limit fits none
  | tree {root : ParseNode TokenKind Rule} {tree : Tree} (reading : Tree.read limit t = .ok tree)
      (visit : Visited.ofNode t.place root = tree.visited) :
      Answers t limit fits (some (.tree root))
  | noMatch {m : Missed TokenKind}
      (reading : Tree.read limit t = .error (t.unmatched t.place m)) :
      Answers t limit fits (some (.noMatch m))

/-- What follows the value of a text. -/
lemma answers_done {n : Nat} {tree : Tree} {y r' : Text} {node : ParseNode TokenKind Rule}
    (split : t = y ++ r') (missed : m.offset < y.length)
    (hnode : Visited.ofNode t.place node = tree.visited)
    (reading : Tree.read limit t = Tree.readFrom limit (.done tree) (.between y r')) :
    Answers t limit fits (((Rule.grammar.match? (n + 1) (.terminal .endOfText)
      ⟨y.length, r', m⟩).map (Result.wrap .document ∘ Result.prepend [node])).bind
        Result.answer?) := by
  rw [Peg.Grammar.match?]
  by_cases hended : r'.trimmed = []
  · have hread : Tree.read limit t = .ok tree :=
      reading.trans (Tree.readFrom_done (by rw [Place.skipGaps_between]; exact hended))
    have hlength : Rule.grammar.length? .endOfText r'.trimmed = some 0 := by rw [hended]; rfl
    simp only [Peg.Grammar.matchTerminal, skip_eq, hlength]
    refine .tree hread ?_
    change Visited.ofNode t.place (.rule .document [node, .terminal .endOfText _ _]) = _
    rw [ofNode_rule, gathered_cons, gathered_cons, gathered_nil, hnode, Visited.ofNode]
    cases hv : tree.visited with
    | error e => rfl
    | ok v =>
      obtain ⟨l, -, rfl⟩ := Outcome.map_eq_ok.mp hv
      rfl
  · have hmissing : ¬TokenKind.endOfText.Matches r'.trimmed :=
      mt TokenKind.matches_endOfText_iff.mp hended
    have hadd : m.add (y ++ r'.leading).length .endOfText =
        ⟨(y ++ r'.leading).length, [.endOfText]⟩ :=
      Missed.add_of_gt (Nat.lt_of_lt_of_le missed (by simp))
    rw [matchTerminal_of_not_matches hmissing, hadd]
    refine .noMatch (reading.trans (Tree.readFrom_unmatched split ?_))
    simpa [ParseState.expected] using hmissing

/-- With ten calls for each container that may be open there is room for the whole text. -/
lemma answers_answer? (n limit : Nat) (t : Text) :
    Answers t limit (10 * limit + 7 ≤ n) (Rule.grammar.answer? n t) := by
  match n with
  | 0 | 1 => exact .overflow (by omega)
  | n + 2 =>
    have hvalues : MatchesValues t limit (10 * limit + 7 ≤ n + 2) n [] :=
      matchesValues n (Nat.zero_le _) (by simp)
    have hvalue := hvalues (.value []) [] t {} rfl (Nat.zero_le _) (ParseState.atValue_value [])
    rw [Peg.Grammar.answer?, Peg.Grammar.match?]
    change Answers t limit _ (((matchAll (Rule.grammar.match? n)
      [.rule .value, .terminal .endOfText] ⟨0, t, {}⟩).map (Result.wrap .document)).bind _)
    rw [matchAll]
    change Starts t limit _ _ _ _ _ _ _ (Rule.grammar.match? n (.rule .value) ⟨0, t, {}⟩) at hvalue
    cases n with
    | zero => exact .overflow (by omega)
    | succ n =>
      generalize Rule.grammar.match? (n + 1) (.rule .value) ⟨0, t, {}⟩ = x at hvalue
      cases hvalue with
      | refused reading => exact .refused reading
      | overflow room => exact .overflow room
      -- a value was matched, and the end of the text is tried behind it
      | matched _ _ split _ _ missed goal reading =>
        obtain ⟨node, tree, rfl, rfl, hnode⟩ := goal
        dsimp only
        rw [matchAll_singleton, Option.map_map]
        exact answers_done split missed hnode reading
      -- no value stands at the front, so its kinds are all that was missed
      | missed stands =>
        have hmissed : (Missed.addAll {} ([] ++ t.leading).length ParseState.valueKinds) =
            ⟨([] ++ t.leading).length, ParseState.valueKinds⟩ := by
          rcases Nat.eq_zero_or_pos ([] ++ t.leading).length with h | h
          · rw [h]
            rfl
          · exact Missed.addAll_of_gt h (by decide)
        rw [hmissed]
        exact .noMatch (Tree.readFrom_unmatched (b := []) rfl stands)
      | stuck _ _ _ reading => exact .noMatch reading

end Clausal
