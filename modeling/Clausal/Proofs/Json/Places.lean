import Clausal.Proofs.Json.Grammar
import Clausal.Proofs.Json.Value

/-!
# The grammar with places

Which texts spell a located value whose parts carry the positions at which their own spellings
start. A spelling comes with the text before it, and a position is what line feeds and code points
of that text count up to, without a word on how texts are read.
-/

namespace Clausal

/-- The position behind a text: one line more than there are line feeds in it, and one column more
than there are code points since the last of them. -/
def Text.endPosition (t : Text) : Position :=
  ⟨t.count (.scalar '\n') + 1, (t.reverse.takeWhile (· ≠ .scalar '\n')).length + 1⟩

@[simp] lemma Text.endPosition_nil : endPosition [] = .start := rfl

@[simp] lemma Text.endPosition_concat (t : Text) (c : CodePoint) :
    endPosition (t ++ [c]) = t.endPosition.next c := by
  by_cases hc : c = .scalar '\n'
  · subst hc
    simp [endPosition, Position.next]
  · simp [endPosition, Position.next, hc]

namespace Located

/-- The located values directly inside a located value. -/
def parts : Located → List Located
  | array _ items => items
  | object _ members => members.map Prod.snd
  | _ => []

/-- The first value is the second or stands inside it, at any depth. -/
def Within (k l : Located) : Prop := Relation.ReflTransGen (fun a b => b ∈ a.parts) l k

mutual

/-- How a located value is spelled behind a text. A value without parts is a scalar or an empty
container. -/
inductive SpelledAt : Located → Text → Text → Prop
  | leaf {l : Located} {b s : Text} (parts : l.parts = []) (start : l.start = b.endPosition)
      (spelled : l.plain.Spelled s) : SpelledAt l b s
  | array {ls : List Located} {b s : Text} (items : ItemsSpelledAt ls (b ++ [.scalar '[']) s) :
      SpelledAt (.array b.endPosition ls) b (.scalar '[' :: s ++ [.scalar ']'])
  | object {ms : List (Text × Located)} {b s : Text}
      (members : MembersSpelledAt ms (b ++ [.scalar '\x7b']) s) :
      SpelledAt (.object b.endPosition ms) b (.scalar '\x7b' :: s ++ [.scalar '\x7d'])

/-- A located value between white space, behind a text. -/
inductive PaddedAt : Located → Text → Text → Prop
  | mk {l : Located} {b w s w' : Text} (before : w.Gap) (value : SpelledAt l (b ++ w) s)
      (after : w'.Gap) : PaddedAt l b (w ++ (s ++ w'))

/-- One located item or more, with commas between them, behind a text. -/
inductive ItemsSpelledAt : List Located → Text → Text → Prop
  | one {l : Located} {b s : Text} (item : PaddedAt l b s) : ItemsSpelledAt [l] b s
  | cons {l : Located} {ls : List Located} {b s t : Text} (head : PaddedAt l b s)
      (tail : ItemsSpelledAt ls (b ++ (s ++ [.scalar ','])) t) :
      ItemsSpelledAt (l :: ls) b (s ++ .scalar ',' :: t)

/-- A name, a colon and a located value, behind a text. -/
inductive MemberSpelledAt : Text × Located → Text → Text → Prop
  | mk {k b n w w' s : Text} {l : Located} (before : w.Gap) (name : k.Quoted n) (after : w'.Gap)
      (value : PaddedAt l (b ++ (w ++ (n ++ (w' ++ [.scalar ':'])))) s) :
      MemberSpelledAt (k, l) b (w ++ (n ++ (w' ++ .scalar ':' :: s)))

/-- One located member or more, with commas between them, behind a text. -/
inductive MembersSpelledAt : List (Text × Located) → Text → Text → Prop
  | one {m : Text × Located} {b s : Text} (member : MemberSpelledAt m b s) :
      MembersSpelledAt [m] b s
  | cons {m : Text × Located} {ms : List (Text × Located)} {b s t : Text}
      (head : MemberSpelledAt m b s)
      (tail : MembersSpelledAt ms (b ++ (s ++ [.scalar ','])) t) :
      MembersSpelledAt (m :: ms) b (s ++ .scalar ',' :: t)

end

/-! ### Positions aside, the grammar is the same -/

mutual

lemma SpelledAt.spelled {l : Located} {b s : Text} (h : l.SpelledAt b s) : l.plain.Spelled s := by
  match h with
  | .leaf _ _ spelled => exact spelled
  | .array items =>
    rw [plain]
    exact .array items.itemsSpelled
  | .object members =>
    rw [plain]
    exact .object members.membersSpelled

lemma PaddedAt.padded {l : Located} {b s : Text} (h : l.PaddedAt b s) : l.plain.Padded s := by
  match h with
  | .mk before value after => exact .mk before value.spelled after

lemma ItemsSpelledAt.itemsSpelled {ls : List Located} {b s : Text} (h : ItemsSpelledAt ls b s) :
    Json.ItemsSpelled (ls.map plain) s := by
  match h with
  | .one item => exact .one item.padded
  | .cons head tail => exact .cons head.padded tail.itemsSpelled

lemma MemberSpelledAt.memberSpelled {m : Text × Located} {b s : Text}
    (h : MemberSpelledAt m b s) : Json.MemberSpelled (m.1, m.2.plain) s := by
  match h with
  | .mk before name after value => exact .mk before name after value.padded

lemma MembersSpelledAt.membersSpelled {ms : List (Text × Located)} {b s : Text}
    (h : MembersSpelledAt ms b s) :
    Json.MembersSpelled (ms.map fun m => (m.1, m.2.plain)) s := by
  match h with
  | .one member => exact .one member.memberSpelled
  | .cons head tail => exact .cons head.memberSpelled tail.membersSpelled

end

lemma SpelledAt.start_eq {l : Located} {b s : Text} (h : l.SpelledAt b s) :
    l.start = b.endPosition := by
  cases h with
  | leaf _ start _ => exact start
  | array | object => rfl

/-! ### Spellings inside a spelling -/

/-- Behind `b`, the text `s` holds a spelling of the value, and its positions are right there. -/
def SpelledInside (l : Located) (b s : Text) : Prop :=
  ∃ x y z, s = x ++ (y ++ z) ∧ l.SpelledAt (b ++ x) y

lemma SpelledAt.inside {l : Located} {b s : Text} (h : l.SpelledAt b s) : l.SpelledInside b s :=
  ⟨[], s, [], by simp, by simpa using h⟩

lemma SpelledInside.append {l : Located} {b s : Text} (u v : Text)
    (h : l.SpelledInside (b ++ u) s) : l.SpelledInside b (u ++ (s ++ v)) := by
  obtain ⟨x, y, z, rfl, hy⟩ := h
  exact ⟨u ++ x, y, z ++ v, by simp, by simpa using hy⟩

lemma SpelledInside.trans {k l : Located} {b s : Text} (h : l.SpelledInside b s)
    (hk : ∀ c x, l.SpelledAt c x → k.SpelledInside c x) : k.SpelledInside b s := by
  obtain ⟨x, y, z, rfl, hy⟩ := h
  exact (hk _ _ hy).append x z

lemma PaddedAt.inside {l : Located} {b s : Text} (h : l.PaddedAt b s) : l.SpelledInside b s := by
  obtain ⟨-, value, -⟩ := h
  exact value.inside.append _ _

lemma ItemsSpelledAt.inside {ls : List Located} {b s : Text} (h : ItemsSpelledAt ls b s)
    {l : Located} (hl : l ∈ ls) : l.SpelledInside b s := by
  -- on the items, for any text before them; an item in the tail lies behind those before it
  induction ls generalizing b s with
  | nil => cases hl
  | cons a ls ih =>
    cases h with
    | one item =>
      obtain rfl := List.mem_singleton.mp hl
      exact item.inside
    | @cons _ _ _ x t head tail =>
      rcases List.mem_cons.mp hl with rfl | hl
      · exact SpelledInside.append (u := []) _ (by simpa using head.inside)
      · have := (ih tail hl).append _ []
        simpa using this

lemma MemberSpelledAt.inside {m : Text × Located} {b s : Text} (h : MemberSpelledAt m b s) :
    m.2.SpelledInside b s := by
  obtain ⟨-, -, -, value⟩ := h
  have := value.inside.append _ []
  simpa using this

lemma MembersSpelledAt.inside {ms : List (Text × Located)} {b s : Text}
    (h : MembersSpelledAt ms b s) {m : Text × Located} (hm : m ∈ ms) :
    m.2.SpelledInside b s := by
  induction ms generalizing b s with
  | nil => cases hm
  | cons a ms ih =>
    cases h with
    | one member =>
      obtain rfl := List.mem_singleton.mp hm
      exact member.inside
    | @cons _ _ _ x t head tail =>
      rcases List.mem_cons.mp hm with rfl | hm
      · exact SpelledInside.append (u := []) _ (by simpa using head.inside)
      · have := (ih tail hm).append _ []
        simpa using this

/-- The parts of a value are spelled inside its spelling. -/
lemma SpelledAt.inside_of_mem_parts {k l : Located} {b s : Text} (h : l.SpelledAt b s)
    (hk : k ∈ l.parts) : k.SpelledInside b s := by
  cases h with
  | leaf parts => simp [parts] at hk
  | array items => exact (items.inside hk).append [_] _
  | object members =>
    obtain ⟨m, hm, rfl⟩ := List.mem_map.mp hk
    exact (members.inside hm).append [_] _

/-- So is every value inside, at any depth. -/
lemma SpelledAt.inside_of_within {k l : Located} {b s : Text} (h : l.SpelledAt b s)
    (hk : k.Within l) : k.SpelledInside b s := by
  induction hk with
  | refl => exact h.inside
  | tail _ hpart ih => exact ih.trans fun _ _ h => h.inside_of_mem_parts hpart

end Located

end Clausal
