import Clausal.Proofs.Authoring.Paths
import Clausal.Proofs.Json.Placing
import Clausal.Proofs.Json.Writing
import Clausal.Proofs.Refusing
import Mathlib.Data.List.Nodup

/-!
# Names that are repeated

A tree holds the members of its objects with the places of their names, so it shows which member is
the second of its name and what path leads there. Resolving a tree refuses such a member at the
place of its name; objects do not know where they stand in the document, so of the path only the
last step is told.
-/

namespace Clausal

namespace Tree

/-! ### Second members of a name -/

/-- The path leads to a member that is the second of its name in its object, and this is its key. -/
inductive RepeatsAt : Tree → Path → Key → Prop
  | here {s : Position} (before : List (Key × Tree)) {key : Key} {t : Tree}
      {after : List (Key × Tree)} (second : (before.map fun m => m.1.2).count key.2 = 1) :
      RepeatsAt (.object s (before ++ (key, t) :: after)) [.field key.2] key
  | member {s : Position} {members : List (Key × Tree)} {outer key : Key} {t : Tree} {path : Path}
      (mem : (outer, t) ∈ members) (inside : RepeatsAt t path key) :
      RepeatsAt (.object s members) (.field outer.2 :: path) key
  | item {s : Position} {items : List Tree} {i : Nat} {key : Key} {t : Tree} {path : Path}
      (get : items[i]? = some t) (inside : RepeatsAt t path key) :
      RepeatsAt (.array s items) (.item i :: path) key

/-- The last step of the path is the name. -/
lemma RepeatsAt.exists_eq_concat {t : Tree} {path : Path} {key : Key} (h : t.RepeatsAt path key) :
    ∃ above, path = above ++ [.field key.2] := by
  induction h with
  | here => exact ⟨[], rfl⟩
  | member mem inside ih =>
    obtain ⟨above, rfl⟩ := ih
    exact ⟨_ :: above, rfl⟩
  | item get inside ih =>
    obtain ⟨above, rfl⟩ := ih
    exact ⟨_ :: above, rfl⟩

/-- A value with a second member of a name is not one whose names are distinct. -/
lemma RepeatsAt.not_distinct {t : Tree} {path : Path} {key : Key} (h : t.RepeatsAt path key) :
    ¬t.json.Distinct := by
  -- along the path to the repeated name
  induction h with
  | @here s before key t after second =>
    intro hdistinct
    rw [json, Json.distinct_iff] at hdistinct
    have hle := List.nodup_iff_count_le_one.mp (hdistinct.1 _ rfl) key.2
    simp only [List.map_append, List.map_map, List.map_cons, Function.comp_def, List.count_append,
      List.count_cons_self, second] at hle
    omega
  | member mem inside ih =>
    intro hdistinct
    rw [json, Json.distinct_iff] at hdistinct
    refine ih (hdistinct.2 _ ?_)
    rw [Json.parts, List.map_map]
    exact List.mem_map_of_mem mem
  | item get inside ih =>
    intro hdistinct
    rw [json, Json.distinct_iff] at hdistinct
    exact ih (hdistinct.2 _ (List.mem_map_of_mem (List.mem_of_getElem? get)))

/-- In an object the second member of a name is a member or stands inside one. -/
lemma RepeatsAt.object_cases {s : Position} {members : List (Key × Tree)} {path : Path} {key : Key}
    (h : (object s members).RepeatsAt path key) :
    (∃ before t after, members = before ++ (key, t) :: after ∧
      (before.map fun m => m.1.2).count key.2 = 1 ∧ path = [.field key.2]) ∨
    ∃ m ∈ members, ∃ inner, m.2.RepeatsAt inner key ∧ path = .field m.1.2 :: inner := by
  cases h with
  | @here _ before _ t after second => exact .inl ⟨before, t, after, rfl, second, rfl⟩
  | @member _ _ outer _ t inner mem inside => exact .inr ⟨_, mem, inner, inside, rfl⟩

/-- Scalars have no members. -/
lemma not_repeatsAt_of_int {t : Tree} {n : Int} (h : t.json = .int n) {path : Path} {key : Key} :
    ¬t.RepeatsAt path key := by
  intro hrepeats
  cases hrepeats <;> rw [json] at h <;> cases h

/-- A value that is an object is spelled by an object, a member for a member. -/
lemma exists_object_of_json {t : Tree} {ms : List (Text × Json)} (h : t.json = .object ms) :
    ∃ s members, t = .object s members ∧ members.map (fun m => (m.1.2, m.2.json)) = ms := by
  cases t with
  | object s members =>
    rw [json, Json.object.injEq] at h
    exact ⟨s, members, rfl, h⟩
  | number s l =>
    rw [json, NumberLiteral.json] at h
    split at h <;> cases h
  | _ =>
    rw [json] at h
    cases h

/-! ### What resolving refuses -/

/-- The failure for a member that repeats a name: it tells where the name stands. -/
def repeated (key : Key) : Failure :=
  .fault ⟨.duplicateField key.2, [.field key.2], some key.1⟩

lemma resolveItems_eq_error {items : List Tree} {before : List Located} {e : Failure}
    (h : resolveItems before items = .error e) :
    ∃ (i : Nat) (t : Tree), items[i]? = some t ∧ t.resolve = .error e := by
  -- on the items; the first one that fails is the one reported
  induction items generalizing before with
  | nil => cases h
  | cons t items ih =>
    rw [resolveItems] at h
    cases ht : t.resolve with
    | error e' =>
      rw [ht] at h
      cases h
      exact ⟨0, t, rfl, ht⟩
    | ok l =>
      rw [ht] at h
      obtain ⟨i, u, hu, hfails⟩ := ih h
      exact ⟨i + 1, u, hu, hfails⟩

lemma resolveMembers_eq_error {members : List (Key × Tree)} {before : List (Key × Located)}
    {e : Failure} (h : resolveMembers before members = .error e) :
    ∃ m ∈ members, m.2.resolve = .error e := by
  induction members generalizing before with
  | nil => cases h
  | cons m members ih =>
    rw [resolveMembers] at h
    cases hm : m.2.resolve with
    | error e' =>
      rw [hm] at h
      cases h
      exact ⟨m, List.mem_cons_self, hm⟩
    | ok l =>
      rw [hm] at h
      obtain ⟨n, hn, hfails⟩ := ih h
      exact ⟨n, List.mem_cons_of_mem m hn, hfails⟩

/-- The first member with a name from before is the second of its name. -/
lemma distinctMembers_eq_error {members : List (Key × Located)} {before : List (Text × Located)}
    {e : Failure} (hbefore : (before.map Prod.fst).Nodup)
    (h : Located.distinctMembers before members = .error e) :
    ∃ as key v bs, members = as ++ (key, v) :: bs ∧ e = repeated key ∧
      (before.map Prod.fst).count key.2 + (as.map fun m => m.1.2).count key.2 = 1 := by
  -- on the members, with those before them known to have different names
  induction members generalizing before with
  | nil => cases h
  | cons m members ih =>
    obtain ⟨⟨s, k⟩, v⟩ := m
    rw [Located.distinctMembers] at h
    split at h
    · next hk =>
      have hmem : k ∈ before.map Prod.fst := by simpa using hk
      cases h
      exact ⟨[], (s, k), v, members, rfl, rfl, List.count_eq_one_of_mem hbefore hmem⟩
    · next hk =>
      have hmem : k ∉ before.map Prod.fst := by simpa using hk
      have hdistinct : (((k, v) :: before).map Prod.fst).Nodup :=
        List.nodup_cons.mpr ⟨hmem, hbefore⟩
      obtain ⟨as, key, w, bs, rfl, rfl, hcount⟩ := ih hdistinct h
      refine ⟨((s, k), v) :: as, key, w, bs, rfl, rfl, ?_⟩
      simp only [List.map_cons, List.count_cons] at hcount ⊢
      omega

lemma exists_resolveNumber {s : Position} {l : NumberLiteral} (hl : l.WellFormed)
    (hshort : l.json.Short) : ∃ v, Located.ofNumber s l = .ok v := by
  have hdistinct : l.json.Distinct := by
    rw [Json.distinct_iff]
    unfold NumberLiteral.json
    split <;> simp [Json.parts]
  rcases settles_resolveNumber s hl with ⟨-, v, hv, -⟩ | ⟨hnot, -⟩
  · exact ⟨v, hv⟩
  · exact (hnot ⟨hdistinct, hshort⟩).elim

/-- Resolving refuses a tree with short integers only for a second member of a name. -/
lemma exists_repeatsAt_of_resolve (t : Tree) : (∀ l, .number l ∈ t.tokens → l.WellFormed) →
    t.json.Short → ∀ e, t.resolve = .error e →
      ∃ path key, t.RepeatsAt path key ∧ e = repeated key := by
  -- inner containers are resolved before outer ones, so a failure below comes first
  induction t using Tree.inductionOn with
  | null s | bool s b | string s t =>
    intro _ _ e h
    rw [resolve] at h
    cases h
  | number s l =>
    intro hwf hshort e h
    rw [resolve] at h
    rw [json] at hshort
    obtain ⟨v, hv⟩ := exists_resolveNumber (s := s)
      (hwf l (by rw [tokens]; exact List.mem_singleton_self _)) hshort
    cases h.symm.trans hv
  | array s items ih =>
    intro hwf hshort e h
    rw [resolve] at h
    rw [json, Json.short_iff] at hshort
    -- either an item fails, or nothing does: the array adds no failure of its own
    rcases Outcome.bind_eq_error.mp h with h | ⟨vs, -, h⟩
    · obtain ⟨i, t, hget, hfails⟩ := resolveItems_eq_error h
      have hmem := List.mem_of_getElem? hget
      obtain ⟨path, key, hrepeats, rfl⟩ := ih t hmem (fun l hl => hwf l (mem_tokens_array hmem hl))
        (hshort.2 _ (List.mem_map_of_mem hmem)) e hfails
      exact ⟨_, key, .item hget hrepeats, rfl⟩
    · cases h
  | object s members ih =>
    intro hwf hshort e h
    rw [resolve] at h
    rw [json, Json.short_iff] at hshort
    have hparts (m : Key × Tree) (hm : m ∈ members) : m.2.json.Short := by
      refine hshort.2 _ ?_
      rw [Json.parts, List.map_map]
      exact List.mem_map_of_mem (f := fun m : Key × Tree => m.2.json) hm
    rcases Outcome.bind_eq_error.mp h with h | ⟨ms, hms, h⟩
    · obtain ⟨⟨outer, t⟩, hmem, hfails⟩ := resolveMembers_eq_error h
      obtain ⟨path, key, hrepeats, rfl⟩ := ih _ hmem
        (fun l hl => hwf l (mem_tokens_object hmem hl)) (hparts _ hmem) e hfails
      exact ⟨_, key, .member hmem hrepeats, rfl⟩
    rcases Outcome.bind_eq_error.mp h with h | ⟨ks, -, h⟩
    · obtain rfl : ms = members.map fun m => (m.1, m.2.toLocated) := by
        simpa using resolveMembers_eq_ok (fun m _ => m.2.eq_toLocated_of_resolve) hms
      have hnone : (([] : List (Text × Located)).map Prod.fst).Nodup := .nil
      obtain ⟨as, key, v, bs, hsplit, rfl, hcount⟩ := distinctMembers_eq_error hnone h
      obtain ⟨before, rest, rfl, rfl, hrest⟩ := List.map_eq_append_iff.mp hsplit
      obtain ⟨⟨key', t⟩, after, rfl, hkey, rfl⟩ := List.map_eq_cons_iff.mp hrest
      obtain rfl : key' = key := congrArg Prod.fst hkey
      exact ⟨_, key', .here _ (by simpa [Function.comp_def] using hcount), rfl⟩
    · cases h

/-! ### Where names stand -/

/-- Behind `b`, the text `s` holds a spelling of the name, and the position is where it starts. -/
def NameInside (key : Key) (b s : Text) : Prop :=
  ∃ x n y, s = x ++ (n ++ y) ∧ key.2.Quoted n ∧ key.1 = (b ++ x).endPosition

lemma NameInside.append {key : Key} {b s : Text} (u v : Text) (h : NameInside key (b ++ u) s) :
    NameInside key b (u ++ (s ++ v)) := by
  obtain ⟨x, n, y, rfl, hn, hkey⟩ := h
  exact ⟨u ++ x, n, y ++ v, by simp, hn, by simpa using hkey⟩

lemma MemberSpelledAt.nameInside {m : Key × Tree} {b s : Text} (h : MemberSpelledAt m b s) :
    NameInside m.1 b s := by
  obtain ⟨-, name, -, -⟩ := h
  exact ⟨_, _, _, rfl, name, rfl⟩

/-- A member of an object is spelled inside the object. -/
lemma MembersSpelledAt.exists_member {ms : List (Key × Tree)} {b s : Text}
    (h : MembersSpelledAt ms b s) {m : Key × Tree} (hm : m ∈ ms) :
    ∃ x y z, s = x ++ (y ++ z) ∧ MemberSpelledAt m (b ++ x) y := by
  induction ms generalizing b s with
  | nil => cases hm
  | cons a ms ih =>
    cases h with
    | one member =>
      obtain rfl := List.mem_singleton.mp hm
      exact ⟨[], s, [], by simp, by simpa using member⟩
    | @cons _ _ _ x t head tail =>
      rcases List.mem_cons.mp hm with rfl | hm
      · exact ⟨[], x, .scalar ',' :: t, by simp, by simpa using head⟩
      · obtain ⟨u, y, z, rfl, hy⟩ := ih tail hm
        exact ⟨x ++ .scalar ',' :: u, y, z, by simp, by simpa using hy⟩

/-- An item of an array is spelled inside the array. -/
lemma ItemsSpelledAt.exists_item {ts : List Tree} {b s : Text} (h : ItemsSpelledAt ts b s)
    {t : Tree} (ht : t ∈ ts) : ∃ x y z, s = x ++ (y ++ z) ∧ t.PaddedAt (b ++ x) y := by
  induction ts generalizing b s with
  | nil => cases ht
  | cons a ts ih =>
    cases h with
    | one item =>
      obtain rfl := List.mem_singleton.mp ht
      exact ⟨[], s, [], by simp, by simpa using item⟩
    | @cons _ _ _ x s' head tail =>
      rcases List.mem_cons.mp ht with rfl | ht
      · exact ⟨[], x, .scalar ',' :: s', by simp, by simpa using head⟩
      · obtain ⟨u, y, z, rfl, hy⟩ := ih tail ht
        exact ⟨x ++ .scalar ',' :: u, y, z, by simp, by simpa using hy⟩

lemma PaddedAt.exists_item {start : Position} {ts : List Tree} {b s : Text}
    (h : (array start ts).PaddedAt b s) {t : Tree} (ht : t ∈ ts) :
    ∃ x y z, s = x ++ (y ++ z) ∧ t.PaddedAt (b ++ x) y := by
  obtain @⟨_, _, w, _, w', -, value, -⟩ := h
  cases value with
  | emptyArray => cases ht
  | array items =>
    obtain ⟨x, y, z, rfl, hy⟩ := items.exists_item ht
    exact ⟨w ++ .scalar '[' :: x, y, z ++ .scalar ']' :: w', by simp, by simpa using hy⟩

lemma PaddedAt.exists_member {start : Position} {ms : List (Key × Tree)} {b s : Text}
    (h : (object start ms).PaddedAt b s) {m : Key × Tree} (hm : m ∈ ms) :
    ∃ x y z, s = x ++ (y ++ z) ∧ MemberSpelledAt m (b ++ x) y := by
  obtain @⟨_, _, w, _, w', -, value, -⟩ := h
  cases value with
  | emptyObject => cases hm
  | object members =>
    obtain ⟨x, y, z, rfl, hy⟩ := members.exists_member hm
    exact ⟨w ++ .scalar '\x7b' :: x, y, z ++ .scalar '\x7d' :: w', by simp, by simpa using hy⟩

lemma MemberSpelledAt.exists_value {m : Key × Tree} {b s : Text} (h : MemberSpelledAt m b s) :
    ∃ x y, s = x ++ y ∧ m.2.PaddedAt (b ++ x) y := by
  obtain @⟨k, _, n, w, w', y, t, -, -, -, value⟩ := h
  exact ⟨w ++ (n ++ (w' ++ [.scalar ':'])), y, by simp, value⟩

/-- The key of a second member of a name tells where this name stands. -/
lemma RepeatsAt.nameInside {t : Tree} {path : Path} {key : Key} (h : t.RepeatsAt path key)
    {b s : Text} (ht : t.PaddedAt b s) : NameInside key b s := by
  -- along the path, where each part of the tree has its own part of the text
  induction h generalizing b s with
  | here _ second =>
    obtain ⟨x, y, z, rfl, hy⟩ :=
      ht.exists_member (List.mem_append_right _ List.mem_cons_self)
    exact hy.nameInside.append x z
  | member mem inside ih =>
    obtain ⟨x, y, z, rfl, hy⟩ := ht.exists_member mem
    obtain ⟨u, v, rfl, hv⟩ := hy.exists_value
    have := (ih hv).append (b := b ++ x) u []
    rw [List.append_nil] at this
    exact this.append x z
  | item get inside ih =>
    obtain ⟨x, y, z, rfl, hy⟩ := ht.exists_item (List.mem_of_getElem? get)
    exact (ih hy).append x z

end Tree

namespace Located

/-- In every JSON text with short integers in which only one object repeats a name, and only one,
the second member of this name is refused with the line and the column at which its name stands. Of
the path that leads to the member only the last step is told. What is written for it is the path in
full exactly if nothing is written for the steps above: the object is the whole document, or only
members with empty names lead to it. Only where the value is nested deeper than a parser has room
for may it give up instead. -/
theorem parse_repeated_name (parser : Parser) {t : Text} {j : Json} (h : t.Denotes j)
    (hshort : j.Short) :
    ∃ tree : Tree, tree.json = j ∧ tree.PaddedAt [] t ∧
      ∀ path start k, tree.RepeatsAt path (start, k) →
        (∀ path' key, tree.RepeatsAt path' key → path' = path ∧ key = (start, k)) →
        (∃ before name after, t = before ++ (name ++ after) ∧ k.Quoted name ∧
          start = ⟨before.count (.scalar '\n') + 1,
            (before.reverse.takeWhile (· ≠ .scalar '\n')).length + 1⟩) ∧
        (∃ above, path = above ++ [.field k] ∧
          (path.render [] = Path.render [] [.field k] ↔ ∀ s ∈ above, s = .field [])) ∧
        (parse parser t = .error (.fault ⟨.duplicateField k, [.field k], some start⟩) ∨
          (parse parser t = .error (.misuse .callsTooDeep) ∧ parser.levels < j.height)) := by
  obtain ⟨tree, hread, rfl, hresolves⟩ := exists_read h (Nat.le_refl j.height)
  refine ⟨tree, rfl, Tree.paddedAt_of_read hread, fun path start k hrepeats hunique => ?_⟩
  -- the only repeated name is the one that resolving comes across
  have hresolve : tree.resolve = .error (Tree.repeated (start, k)) := by
    rcases hresolves with ⟨hloadable, -⟩ | ⟨-, f, hf, -⟩
    · exact (hrepeats.not_distinct hloadable.1).elim
    · obtain ⟨path', key, hkey, he⟩ := tree.exists_repeatsAt_of_resolve
        (fun l hl => wellFormed_of_allSpelled (allSpelled_of_read hread) hl) hshort _ hf
      rw [hf, he, (hunique path' key hkey).2]
  obtain ⟨before, name, after, ht, hname, hstart⟩ :=
    hrepeats.nameInside (Tree.paddedAt_of_read hread)
  obtain ⟨above, rfl⟩ := hrepeats.exists_eq_concat
  refine ⟨⟨before, name, after, ht, hname, hstart⟩, ⟨above, rfl, Path.render_concat_eq_iff⟩, ?_⟩
  rcases parse_eq_or_gives_up parser t with hparse | ⟨hparse, hrefused⟩
  · left
    rw [hparse, parseWithin, read_length_of_read hread]
    exact hresolve
  · exact .inr ⟨hparse, (gives_up_deep hrefused).2 _ h⟩

/-! ### A name that is repeated inside -/

/-- An object whose only member is an object that repeats a name. -/
def nestedTwins : Json := .object [("a", .object [("b", .int 1), ("b", .int 2)])]

lemma short_nestedTwins : nestedTwins.Short := by
  have hinner : Json.Short (.object [("b", .int 1), ("b", .int 2)]) := by
    refine .object ?_
    rw [List.forall_mem_cons, List.forall_mem_singleton]
    exact ⟨.int (by decide +kernel), .int (by decide +kernel)⟩
  exact .object (List.forall_mem_singleton.mpr hinner)

/-- The value spelled with white space behind the first colon, behind the others and behind the
comma. -/
lemma denotes_nestedTwins {u v w : Text} (hu : u.Gap) (hv : v.Gap) (hw : w.Gap) :
    Text.Denotes ("\x7b\"a\":" ++ (u ++ ("\x7b\"b\":" ++ (v ++ ("1," ++ (w ++
      ("\"b\":" ++ (v ++ "2\x7d\x7d")))))))) nestedTwins := by
  have hnothing : Text.Gap [] := by simp [Text.Gap]
  have ha : Text.Quoted "a" (Text.ofString "\"a\"") := Text.quoted_renderString false ['a']
  have hb : Text.Quoted "b" (Text.ofString "\"b\"") := Text.quoted_renderString false ['b']
  have hmember {g : Text} (hg : g.Gap) (n : Int) : Json.MemberSpelled ("b", .int n)
      (g ++ (Text.ofString "\"b\"" ++ ([] ++ .scalar ':' :: (v ++ (Text.ofInt n ++ []))))) :=
    .mk hg hb hnothing (.mk hv (Json.spelled_int n) hnothing)
  have hinner := Json.Spelled.object (.cons (hmember hnothing 1) (.one (hmember hw 2)))
  have houter := Json.Spelled.object (.one (.mk hnothing ha hnothing (.mk hu hinner hnothing)))
  have hdocument := Json.Padded.mk hnothing houter hnothing
  have hone : Text.ofInt 1 = Text.ofString "1" := by decide
  -- the text between the tokens is left open, so that one text serves with line breaks and one
  -- without
  have htwo : Text.ofInt 2 = Text.ofString "2" := by decide
  simpa [Text.Denotes, nestedTwins, hone, htwo, Text.ofString, Text.ofChars] using hdocument

/-- However the value is spelled, it has one second member of a name, inside the inner object. -/
lemma exists_repeatsAt_of_json_nestedTwins {tree : Tree} (h : tree.json = nestedTwins) :
    ∃ start, tree.RepeatsAt [.field "a", .field "b"] ⟨start, "b"⟩ ∧
      ∀ path key, tree.RepeatsAt path key →
        path = [.field "a", .field "b"] ∧ key = ⟨start, "b"⟩ := by
  obtain ⟨s, outer, rfl, houter⟩ := Tree.exists_object_of_json h
  obtain ⟨⟨⟨p, a⟩, inner⟩, rest, rfl, ha, hrest⟩ := List.map_eq_cons_iff.mp houter
  obtain rfl := List.map_eq_nil_iff.mp hrest
  obtain ⟨rfl, hinner⟩ := Prod.mk.inj ha
  obtain ⟨s', members, rfl, hmembers⟩ := Tree.exists_object_of_json hinner
  obtain ⟨⟨⟨p₁, k₁⟩, v₁⟩, rest, rfl, hk₁, hrest⟩ := List.map_eq_cons_iff.mp hmembers
  obtain ⟨⟨⟨p₂, k₂⟩, v₂⟩, rest, rfl, hk₂, hnil⟩ := List.map_eq_cons_iff.mp hrest
  obtain rfl := List.map_eq_nil_iff.mp hnil
  obtain ⟨rfl, hv₁⟩ := Prod.mk.inj hk₁
  obtain ⟨rfl, hv₂⟩ := Prod.mk.inj hk₂
  refine ⟨p₂, .member List.mem_cons_self (.here [((p₁, "b"), v₁)] rfl), fun path key hrepeats => ?_⟩
  rcases hrepeats.object_cases with ⟨before, v, after, hsplit, hcount, -⟩ | ⟨m, hm, path, h, rfl⟩
  · rcases before with - | ⟨m, before⟩
    · cases hcount
    · simp at hsplit
  obtain rfl := List.mem_singleton.mp hm
  rcases h.object_cases with ⟨before, v, after, hsplit, hcount, rfl⟩ | ⟨m, hm, path, h, -⟩
  · rcases before with - | ⟨m₁, - | ⟨m₂, before⟩⟩
    · cases hcount
    · cases hsplit
      exact ⟨rfl, rfl⟩
    · simp at hsplit
  · rcases List.mem_pair.mp hm with rfl | rfl
    · exact (Tree.not_repeatsAt_of_int hv₁ h).elim
    · exact (Tree.not_repeatsAt_of_int hv₂ h).elim

/-- An object inside the only member of the document repeats a name: where the second member stands
is told, but not that its object is the member of another. -/
theorem parse_repeated_name_nested :
    let t := Text.ofChars ['\x7b', '\x22', 'a', '\x22', ':', '\n', '\x7b', '\x22', 'b', '\x22',
      ':', '1', ',', '\x22', 'b', '\x22', ':', '2', '\x7d', '\x7d']
    let j := Json.object [("a", .object [("b", .int 1), ("b", .int 2)])]
    t.Denotes j ∧ j.Short ∧ ∃ tree : Tree, tree.json = j ∧ tree.PaddedAt [] t ∧
      tree.RepeatsAt [.field "a", .field "b"] (⟨2, 8⟩, "b") ∧
      parse .standard t =
        .error (.fault ⟨.duplicateField "b", [.field "b"], some ⟨2, 8⟩⟩) := by
  intro t j
  have hnothing : Text.Gap [] := by simp [Text.Gap]
  have hbreak : Text.Gap [.scalar '\n'] := by simp [Text.Gap]
  have hj : t.Denotes j := denotes_nestedTwins hbreak hnothing hnothing
  obtain ⟨tree, htree, hplaced, hrepeated⟩ := parse_repeated_name .standard hj short_nestedTwins
  obtain ⟨start, hrepeats, honly⟩ := exists_repeatsAt_of_json_nestedTwins htree
  obtain ⟨-, -, hanswer⟩ := hrepeated _ _ _ hrepeats honly
  refine ⟨hj, short_nestedTwins, tree, htree, hplaced, ?_⟩
  have hparse : (parse .standard t).map (fun _ => ()) =
      .error (.fault ⟨.duplicateField "b", [.field "b"], some ⟨2, 8⟩⟩) := by
    decide +kernel
  rcases hanswer with h | ⟨h, -⟩
  · rw [h] at hparse
    have hfault := Failure.fault.inj (Except.error.inj hparse)
    obtain rfl : start = ⟨2, 8⟩ := Option.some.inj (congrArg Fault.position hfault)
    exact ⟨hrepeats, h⟩
  · rw [h] at hparse
    cases hparse

/-- Where the full path would be `a.b`, it is cut down to `b`. -/
theorem parse_repeated_name_cut :
    let t := Text.ofString "\x7b\"a\": \x7b\"b\": 1, \"b\": 2\x7d\x7d"
    t.Denotes nestedTwins ∧ nestedTwins.Short ∧ ∃ tree : Tree, tree.json = nestedTwins ∧
      tree.PaddedAt [] t ∧ ∃ start, tree.RepeatsAt [.field "a", .field "b"] ⟨start, "b"⟩ ∧
        (∀ path key, tree.RepeatsAt path key →
          path = [.field "a", .field "b"] ∧ key = ⟨start, "b"⟩) ∧
        ∃ f, parse .standard t = .error (.fault f) ∧ f.cause = .duplicateField "b" ∧
          f.position = some ⟨1, 16⟩ ∧
          Path.render [] [.field "a", .field "b"] = "a.b" ∧ f.path.render [] = "b" := by
  intro t
  have hblank : Text.Gap [.scalar ' '] := by simp [Text.Gap]
  have ht : t.Denotes nestedTwins := denotes_nestedTwins hblank hblank hblank
  obtain ⟨tree, hread, htree, -⟩ := exists_read ht (Nat.le_refl _)
  obtain ⟨start, hrepeats, honly⟩ := exists_repeatsAt_of_json_nestedTwins htree
  refine ⟨ht, short_nestedTwins, tree, htree, Tree.paddedAt_of_read hread, start, hrepeats, honly,
    ⟨.duplicateField "b", [.field "b"], some ⟨1, 16⟩⟩, ?_, rfl, rfl, by decide, by decide⟩
  have hparse : (parse .standard t).map (fun _ => ()) =
      .error (.fault ⟨.duplicateField "b", [.field "b"], some ⟨1, 16⟩⟩) := by
    decide +kernel
  cases h : parse .standard t with
  | error e =>
    rw [h] at hparse
    exact congrArg Except.error (Except.error.inj hparse)
  | ok l =>
    rw [h] at hparse
    cases hparse

end Located

end Clausal
