import Clausal.Proofs.Json.Machine

/-!
# Texts and trees

A text denotes a value exactly if it is made of the tokens of a tree that spells the value.
-/

namespace Clausal

open Token (AllSpelled)

/-! ### From texts to trees -/

lemma Token.AllSpelled.comma {toks toks' : List Token} {s t : Text} (h : AllSpelled toks s)
    (h' : AllSpelled toks' t) : AllSpelled (toks ++ .comma :: toks') (s ++ .scalar ',' :: t) :=
  h.append (.cons (w := []) (s := [_]) nofun rfl h')

lemma Token.AllSpelled.enclose {first last : Token} {toks : List Token} {a b : CodePoint} {s : Text}
    (h : AllSpelled toks s) (hfirst : first.Spelled [a]) (hlast : last.Spelled [b]) :
    AllSpelled (first :: (toks ++ [last])) (a :: s ++ [b]) :=
  .cons (w := []) (s := [a]) nofun hfirst (h.append hlast.allSpelled)

mutual

lemma exists_tree_of_spelled {j : Json} {s : Text} (h : j.Spelled s) :
    ∃ t : Tree, t.json = j ∧ AllSpelled t.tokens s := by
  -- the three derivations are mutual, and so are these proofs; the positions of the tree are any
  match h with
  | .null =>
    refine ⟨.null .start, by rw [Tree.json], ?_⟩
    rw [Tree.tokens]
    exact Token.Spelled.allSpelled rfl
  | .false =>
    refine ⟨.bool .start false, by rw [Tree.json], ?_⟩
    rw [Tree.tokens]
    exact Token.Spelled.allSpelled rfl
  | .true =>
    refine ⟨.bool .start true, by rw [Tree.json], ?_⟩
    rw [Tree.tokens]
    exact Token.Spelled.allSpelled rfl
  | .number (l := l) hl =>
    refine ⟨.number .start l, by rw [Tree.json], ?_⟩
    rw [Tree.tokens]
    exact Token.Spelled.allSpelled ⟨hl, rfl⟩
  | .string (t := t) ht =>
    refine ⟨.string .start t, by rw [Tree.json], ?_⟩
    rw [Tree.tokens]
    exact Token.Spelled.allSpelled ht
  | .emptyArray hw =>
    refine ⟨.array .start [], by rw [Tree.json, List.map_nil], ?_⟩
    rw [Tree.tokens]
    exact (AllSpelled.nil hw).enclose rfl rfl
  | .array hitems =>
    obtain ⟨items, rfl, htokens⟩ := exists_trees_of_itemsSpelled hitems
    refine ⟨.array .start items, by rw [Tree.json], ?_⟩
    rw [Tree.tokens]
    exact htokens.enclose rfl rfl
  | .emptyObject hw =>
    refine ⟨.object .start [], by rw [Tree.json, List.map_nil], ?_⟩
    rw [Tree.tokens]
    exact (AllSpelled.nil hw).enclose rfl rfl
  | .object hmembers =>
    obtain ⟨members, rfl, htokens⟩ := exists_trees_of_membersSpelled hmembers
    refine ⟨.object .start members, by rw [Tree.json], ?_⟩
    rw [Tree.tokens_object]
    exact htokens.enclose rfl rfl

lemma exists_tree_of_padded {j : Json} {s : Text} (h : j.Padded s) :
    ∃ t : Tree, t.json = j ∧ AllSpelled t.tokens s := by
  match h with
  | .mk before value after =>
    obtain ⟨t, ht, htokens⟩ := exists_tree_of_spelled value
    exact ⟨t, ht, (htokens.append_gap after).gap_cons before⟩

lemma exists_trees_of_itemsSpelled {js : List Json} {s : Text} (h : Json.ItemsSpelled js s) :
    ∃ items : List Tree, items.map Tree.json = js ∧
      AllSpelled (separated (items.map Tree.tokens)) s := by
  match h with
  | .one item =>
    obtain ⟨t, rfl, htokens⟩ := exists_tree_of_padded item
    refine ⟨[t], rfl, ?_⟩
    rwa [List.map_singleton, separated_singleton]
  | .cons item tail =>
    obtain ⟨t, rfl, htokens⟩ := exists_tree_of_padded item
    obtain ⟨items, rfl, htokens'⟩ := exists_trees_of_itemsSpelled tail
    refine ⟨t :: items, rfl, ?_⟩
    cases items with
    | nil => cases tail
    | cons u items =>
      rw [List.map_cons, List.map_cons, separated_cons_cons]
      exact htokens.comma htokens'

lemma exists_tree_of_memberSpelled {m : Text × Json} {s : Text} (h : Json.MemberSpelled m s) :
    ∃ m' : Key × Tree, (m'.1.2, m'.2.json) = m ∧ AllSpelled (memberTokens m') s := by
  match h with
  | .mk (k := k) before name after value =>
    obtain ⟨t, rfl, htokens⟩ := exists_tree_of_padded value
    refine ⟨((.start, k), t), rfl, .cons before name ?_⟩
    exact .cons (s := [_]) after rfl htokens

lemma exists_trees_of_membersSpelled {ms : List (Text × Json)} {s : Text}
    (h : Json.MembersSpelled ms s) :
    ∃ members : List (Key × Tree), members.map (fun m => (m.1.2, m.2.json)) = ms ∧
      AllSpelled (separated (members.map memberTokens)) s := by
  match h with
  | .one member =>
    obtain ⟨m, rfl, htokens⟩ := exists_tree_of_memberSpelled member
    refine ⟨[m], rfl, ?_⟩
    rwa [List.map_singleton, separated_singleton]
  | .cons member tail =>
    obtain ⟨m, rfl, htokens⟩ := exists_tree_of_memberSpelled member
    obtain ⟨members, rfl, htokens'⟩ := exists_trees_of_membersSpelled tail
    refine ⟨m :: members, rfl, ?_⟩
    cases members with
    | nil => cases tail
    | cons u members =>
      rw [List.map_cons, List.map_cons, separated_cons_cons]
      exact htokens.comma htokens'

end

/-! ### From trees to texts -/

lemma Token.AllSpelled.exists_singleton {tok : Token} {t : Text} (h : AllSpelled [tok] t) :
    ∃ w s w', t = w ++ (s ++ w') ∧ w.Gap ∧ tok.Spelled s ∧ w'.Gap := by
  obtain ⟨w, s, w', rfl, hw, hs, hw'⟩ := h.exists_cons
  exact ⟨w, s, w', rfl, hw, hs, hw'.gap⟩

lemma Token.AllSpelled.exists_enclose {first last : Token} {toks : List Token} {t : Text}
    (h : AllSpelled (first :: (toks ++ [last])) t) :
    ∃ w a s b w', t = w ++ (a ++ s ++ b ++ w') ∧ w.Gap ∧ first.Spelled a ∧ AllSpelled toks s ∧
      last.Spelled b ∧ w'.Gap := by
  obtain ⟨w, a, t', rfl, hw, ha, ht'⟩ := h.exists_cons
  obtain ⟨s, t'', rfl, hs, ht''⟩ := ht'.exists_append
  obtain ⟨v, b, w', rfl, hv, hb, hw'⟩ := ht''.exists_singleton
  exact ⟨w, a, s ++ v, b, w', by simp, hw, ha, hs.append_gap hv, hb, hw'⟩

lemma Token.AllSpelled.exists_comma {toks toks' : List Token} {t : Text}
    (h : AllSpelled (toks ++ .comma :: toks') t) :
    ∃ s s', t = s ++ .scalar ',' :: s' ∧ AllSpelled toks s ∧ AllSpelled toks' s' := by
  obtain ⟨s, t', rfl, hs, ht'⟩ := h.exists_append
  obtain ⟨w, _, s', rfl, hw, rfl, hs'⟩ := ht'.exists_cons
  exact ⟨s ++ w, s', by simp, hs.append_gap hw, hs'⟩

lemma itemsSpelled_of_tokens {items : List Tree} (hne : items ≠ [])
    (hitems : ∀ t ∈ items, ∀ s, AllSpelled t.tokens s → t.json.Padded s) {s : Text}
    (h : AllSpelled (separated (items.map Tree.tokens)) s) :
    Json.ItemsSpelled (items.map Tree.json) s := by
  induction items generalizing s with
  | nil => exact (hne rfl).elim
  | cons t items ih =>
    obtain ⟨ht, hitems⟩ := List.forall_mem_cons.mp hitems
    cases items with
    | nil =>
      rw [List.map_singleton, separated_singleton] at h
      exact .one (ht s h)
    | cons u items =>
      rw [List.map_cons, List.map_cons, separated_cons_cons] at h
      obtain ⟨s, s', rfl, hs, hs'⟩ := h.exists_comma
      exact .cons (ht s hs) (ih (List.cons_ne_nil _ _) hitems hs')

lemma memberSpelled_of_tokens {m : Key × Tree}
    (hm : ∀ s, AllSpelled m.2.tokens s → m.2.json.Padded s) {s : Text}
    (h : AllSpelled (memberTokens m) s) : Json.MemberSpelled (m.1.2, m.2.json) s := by
  obtain ⟨w, n, t, rfl, hw, hn, ht⟩ := h.exists_cons
  obtain ⟨w', _, s, rfl, hw', rfl, hs⟩ := ht.exists_cons
  exact .mk hw hn hw' (hm s hs)

lemma membersSpelled_of_tokens {members : List (Key × Tree)} (hne : members ≠ [])
    (hmembers : ∀ m ∈ members, ∀ s, AllSpelled m.2.tokens s → m.2.json.Padded s) {s : Text}
    (h : AllSpelled (separated (members.map memberTokens)) s) :
    Json.MembersSpelled (members.map fun m => (m.1.2, m.2.json)) s := by
  induction members generalizing s with
  | nil => exact (hne rfl).elim
  | cons m members ih =>
    obtain ⟨hm, hmembers⟩ := List.forall_mem_cons.mp hmembers
    cases members with
    | nil =>
      rw [List.map_singleton, separated_singleton] at h
      exact .one (memberSpelled_of_tokens hm h)
    | cons u members =>
      rw [List.map_cons, List.map_cons, separated_cons_cons] at h
      obtain ⟨s, s', rfl, hs, hs'⟩ := h.exists_comma
      exact .cons (memberSpelled_of_tokens hm hs) (ih (List.cons_ne_nil _ _) hmembers hs')

lemma padded_of_tokens (t : Tree) : ∀ s, AllSpelled t.tokens s → t.json.Padded s := by
  -- whatever the text, its tokens come one by one, with gaps around each
  induction t using Tree.inductionOn with
  | null _ =>
    intro s h
    rw [Tree.tokens] at h
    obtain ⟨w, _, w', rfl, hw, rfl, hw'⟩ := h.exists_singleton
    rw [Tree.json]
    exact .mk hw .null hw'
  | bool _ b =>
    intro s h
    rw [Tree.tokens] at h
    obtain ⟨w, x, w', rfl, hw, hx, hw'⟩ := h.exists_singleton
    rw [Tree.json]
    cases b with
    | false =>
      obtain rfl : x = _ := hx
      exact .mk hw .false hw'
    | true =>
      obtain rfl : x = _ := hx
      exact .mk hw .true hw'
  | number _ l =>
    intro s h
    rw [Tree.tokens] at h
    obtain ⟨w, _, w', rfl, hw, ⟨hl, rfl⟩, hw'⟩ := h.exists_singleton
    rw [Tree.json]
    exact .mk hw (.number hl) hw'
  | string _ t =>
    intro s h
    rw [Tree.tokens] at h
    obtain ⟨w, x, w', rfl, hw, hx, hw'⟩ := h.exists_singleton
    rw [Tree.json]
    exact .mk hw (.string hx) hw'
  | array _ items ih =>
    intro s h
    rw [Tree.tokens] at h
    obtain ⟨w, _, x, _, w', rfl, hw, rfl, hx, rfl, hw'⟩ := h.exists_enclose
    rw [Tree.json]
    by_cases hne : items = []
    · subst hne
      exact .mk hw (.emptyArray hx.gap) hw'
    · exact .mk hw (.array (itemsSpelled_of_tokens hne ih hx)) hw'
  | object _ members ih =>
    intro s h
    rw [Tree.tokens_object] at h
    obtain ⟨w, _, x, _, w', rfl, hw, rfl, hx, rfl, hw'⟩ := h.exists_enclose
    rw [Tree.json]
    by_cases hne : members = []
    · subst hne
      exact .mk hw (.emptyObject hx.gap) hw'
    · exact .mk hw (.object (membersSpelled_of_tokens hne ih hx)) hw'

/-- The grammar, seen through the tokens of a text. -/
lemma denotes_iff_exists_tree {t : Text} {j : Json} :
    t.Denotes j ↔ ∃ tree : Tree, tree.json = j ∧ AllSpelled tree.tokens t := by
  constructor
  · exact exists_tree_of_padded
  · rintro ⟨tree, rfl, h⟩
    exact padded_of_tokens tree t h

end Clausal
