import Clausal.Proofs.Json.Places
import Clausal.Proofs.Json.Resolving

/-!
# Trees in their places

Which texts spell a syntax tree whose parts and names carry the positions at which their own
spellings start. Unlike a located value a tree holds every member, also those that repeat a name,
and where each name stands.
-/

namespace Clausal

namespace Tree

/-! ### The grammar with places -/

mutual

/-- How a tree is spelled behind a text. -/
inductive SpelledAt : Tree → Text → Text → Prop
  | null {b : Text} : SpelledAt (.null b.endPosition) b "null"
  | false {b : Text} : SpelledAt (.bool b.endPosition false) b "false"
  | true {b : Text} : SpelledAt (.bool b.endPosition true) b "true"
  | number {l : NumberLiteral} {b : Text} (wellFormed : l.WellFormed) :
      SpelledAt (.number b.endPosition l) b l.spelling
  | string {t b s : Text} (quoted : t.Quoted s) : SpelledAt (.string b.endPosition t) b s
  | emptyArray {b w : Text} (gap : w.Gap) :
      SpelledAt (.array b.endPosition []) b (.scalar '[' :: w ++ [.scalar ']'])
  | array {ts : List Tree} {b s : Text} (items : ItemsSpelledAt ts (b ++ [.scalar '[']) s) :
      SpelledAt (.array b.endPosition ts) b (.scalar '[' :: s ++ [.scalar ']'])
  | emptyObject {b w : Text} (gap : w.Gap) :
      SpelledAt (.object b.endPosition []) b (.scalar '\x7b' :: w ++ [.scalar '\x7d'])
  | object {ms : List (Key × Tree)} {b s : Text}
      (members : MembersSpelledAt ms (b ++ [.scalar '\x7b']) s) :
      SpelledAt (.object b.endPosition ms) b (.scalar '\x7b' :: s ++ [.scalar '\x7d'])

/-- A tree between white space, behind a text. -/
inductive PaddedAt : Tree → Text → Text → Prop
  | mk {t : Tree} {b w s w' : Text} (before : w.Gap) (value : SpelledAt t (b ++ w) s)
      (after : w'.Gap) : PaddedAt t b (w ++ (s ++ w'))

/-- One tree or more, with commas between them, behind a text. -/
inductive ItemsSpelledAt : List Tree → Text → Text → Prop
  | one {t : Tree} {b s : Text} (item : PaddedAt t b s) : ItemsSpelledAt [t] b s
  | cons {t : Tree} {ts : List Tree} {b s s' : Text} (head : PaddedAt t b s)
      (tail : ItemsSpelledAt ts (b ++ (s ++ [.scalar ','])) s') :
      ItemsSpelledAt (t :: ts) b (s ++ .scalar ',' :: s')

/-- A name with the position at which it starts, a colon and a tree, behind a text. -/
inductive MemberSpelledAt : Key × Tree → Text → Text → Prop
  | mk {k b n w w' s : Text} {t : Tree} (before : w.Gap) (name : k.Quoted n) (after : w'.Gap)
      (value : PaddedAt t (b ++ (w ++ (n ++ (w' ++ [.scalar ':'])))) s) :
      MemberSpelledAt (((b ++ w).endPosition, k), t) b (w ++ (n ++ (w' ++ .scalar ':' :: s)))

/-- One member or more, with commas between them, behind a text. -/
inductive MembersSpelledAt : List (Key × Tree) → Text → Text → Prop
  | one {m : Key × Tree} {b s : Text} (member : MemberSpelledAt m b s) : MembersSpelledAt [m] b s
  | cons {m : Key × Tree} {ms : List (Key × Tree)} {b s s' : Text} (head : MemberSpelledAt m b s)
      (tail : MembersSpelledAt ms (b ++ (s ++ [.scalar ','])) s') :
      MembersSpelledAt (m :: ms) b (s ++ .scalar ',' :: s')

end

lemma PaddedAt.append_gap {t : Tree} {b s w : Text} (h : t.PaddedAt b s) (hw : w.Gap) :
    t.PaddedAt b (s ++ w) := by
  obtain ⟨before, value, after⟩ := h
  have := PaddedAt.mk before value (Token.gap_append after hw)
  simpa using this

lemma SpelledAt.paddedAt {t : Tree} {b w s : Text} (hw : w.Gap) (h : t.SpelledAt (b ++ w) s) :
    t.PaddedAt b (w ++ s) := by
  have hnothing : Text.Gap [] := nofun
  have := PaddedAt.mk hw h hnothing
  simpa using this

lemma MemberSpelledAt.append_gap {m : Key × Tree} {b s w : Text} (h : MemberSpelledAt m b s)
    (hw : w.Gap) : MemberSpelledAt m b (s ++ w) := by
  obtain ⟨before, name, after, value⟩ := h
  have := MemberSpelledAt.mk before name after (value.append_gap hw)
  simpa using this

/-! ### Located values of trees -/

/-- The located value of a tree that can be resolved. -/
def toLocated : Tree → Located
  | null s => .null s
  | bool s b => .bool s b
  | number s l => if l.isInteger then .int s l.toInt else .float s l.toDouble
  | string s t => .string s t
  | array s items => .array s (items.map toLocated)
  | object s members => .object s (members.map fun m => (m.1.2, toLocated m.2))
termination_by t => sizeOf t
decreasing_by
  · exact sizeOf_lt_array ‹_›
  · exact sizeOf_lt_object ‹_›

/-- The member of a located value that a member of a tree stands for. -/
def toMember (m : Key × Tree) : Text × Located := (m.1.2, m.2.toLocated)

lemma toLocated_object (s : Position) (members : List (Key × Tree)) :
    (object s members).toLocated = .object s (members.map toMember) := by
  rw [toLocated]
  rfl

mutual

lemma SpelledAt.toLocated {t : Tree} {b s : Text} (h : t.SpelledAt b s) :
    t.toLocated.SpelledAt b s := by
  match h with
  | .null =>
    rw [Tree.toLocated]
    exact .leaf rfl rfl (by rw [Located.plain]; exact .null)
  | .false =>
    rw [Tree.toLocated]
    exact .leaf rfl rfl (by rw [Located.plain]; exact .false)
  | .true =>
    rw [Tree.toLocated]
    exact .leaf rfl rfl (by rw [Located.plain]; exact .true)
  | .number (l := l) wellFormed =>
    have hjson : l.json.Spelled l.spelling := .number wellFormed
    rw [Tree.toLocated]
    -- a fraction is kept as its bits, an integer as it is; either stands where the literal starts
    by_cases hinteger : l.isInteger
    · rw [NumberLiteral.json_of_isInteger hinteger] at hjson
      rw [if_pos hinteger]
      exact .leaf rfl rfl (by rwa [Located.plain])
    · rw [NumberLiteral.json_of_not_isInteger hinteger] at hjson
      rw [if_neg hinteger]
      exact .leaf rfl rfl (by rwa [Located.plain])
  | .string quoted =>
    rw [Tree.toLocated]
    exact .leaf rfl rfl (by rw [Located.plain]; exact .string quoted)
  | .emptyArray gap =>
    rw [Tree.toLocated]
    exact .leaf rfl rfl (by rw [Located.plain]; exact .emptyArray gap)
  | .array items =>
    rw [Tree.toLocated]
    exact .array items.toLocated
  | .emptyObject gap =>
    rw [Tree.toLocated]
    exact .leaf rfl rfl (by rw [Located.plain]; exact .emptyObject gap)
  | .object members =>
    rw [toLocated_object]
    exact .object members.toLocated

lemma PaddedAt.toLocated {t : Tree} {b s : Text} (h : t.PaddedAt b s) :
    t.toLocated.PaddedAt b s := by
  match h with
  | .mk before value after => exact .mk before value.toLocated after

lemma ItemsSpelledAt.toLocated {ts : List Tree} {b s : Text} (h : ItemsSpelledAt ts b s) :
    Located.ItemsSpelledAt (ts.map Tree.toLocated) b s := by
  match h with
  | .one item => exact .one item.toLocated
  | .cons head tail => exact .cons head.toLocated tail.toLocated

lemma MemberSpelledAt.toLocated {m : Key × Tree} {b s : Text} (h : MemberSpelledAt m b s) :
    Located.MemberSpelledAt (toMember m) b s := by
  match h with
  | .mk before name after value => exact .mk before name after value.toLocated

lemma MembersSpelledAt.toLocated {ms : List (Key × Tree)} {b s : Text}
    (h : MembersSpelledAt ms b s) : Located.MembersSpelledAt (ms.map toMember) b s := by
  match h with
  | .one member => exact .one member.toLocated
  | .cons head tail => exact .cons head.toLocated tail.toLocated

end

end Tree

end Clausal
