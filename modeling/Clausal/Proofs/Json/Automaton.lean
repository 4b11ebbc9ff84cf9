import Clausal.Proofs.Json.Tokens
import Clausal.Proofs.Json.Tree

/-!
# Reading texts token by token

A text can be read token by token, without ever going back. The state says what has been read: the
containers that are open, each with what it holds so far, and what may come next. In every state the
kinds of tokens that can go on are known, so reading stops at the farthest place that some text
could reach, and the kinds that were possible there are exactly what is reported. A limit on the
containers that are open at a time stands for the room that the nesting takes.
-/

namespace Clausal

/-- An open container that waits for a value: the items or members before, in reverse, and for an
object the name that the value belongs to. -/
inductive Frame where
  | array (start : Position) (items : List Tree)
  | object (start : Position) (members : List (Key × Tree)) (key : Key)

/-- What has been read of a text. -/
inductive ParseState where
  | value (stack : List Frame)
  | firstItem (start : Position) (stack : List Frame)
  | afterItem (start : Position) (items : List Tree) (stack : List Frame)
  | firstMember (start : Position) (stack : List Frame)
  | nextMember (start : Position) (members : List (Key × Tree)) (stack : List Frame)
  | afterKey (start : Position) (members : List (Key × Tree)) (key : Key) (stack : List Frame)
  | afterMember (start : Position) (members : List (Key × Tree)) (stack : List Frame)
  | done (t : Tree)

namespace ParseState

/-- The kinds of tokens with which a value starts. -/
def valueKinds : List TokenKind :=
  [.openBrace, .openBracket, .string, .number, .true, .false, .null]

/-- The kinds of tokens that may come next. -/
def expected : ParseState → List TokenKind
  | value _ => valueKinds
  | firstItem .. => valueKinds ++ [.closeBracket]
  | afterItem .. => [.comma, .closeBracket]
  | firstMember .. => [.string, .closeBrace]
  | nextMember .. => [.string]
  | afterKey .. => [.colon]
  | afterMember .. => [.comma, .closeBrace]
  | done _ => [.endOfText]

/-- The number of containers that are open. -/
def depth : ParseState → Nat
  | value stack => stack.length
  | firstItem _ stack | afterItem _ _ stack | firstMember _ stack | nextMember _ _ stack
  | afterKey _ _ _ stack | afterMember _ _ stack => stack.length + 1
  | done _ => 0

/-- The state after a whole value in the given containers. -/
def afterValue (t : Tree) : List Frame → ParseState
  | [] => done t
  | .array start items :: stack => afterItem start (t :: items) stack
  | .object start members key :: stack => afterMember start ((key, t) :: members) stack

/-- The state after the first token of a value that starts at a position. -/
def startValue (stack : List Frame) (pos : Position) : Token → Option ParseState
  | .openBrace => some (firstMember pos stack)
  | .openBracket => some (firstItem pos stack)
  | .string t => some (afterValue (.string pos t) stack)
  | .number l => some (afterValue (.number pos l) stack)
  | .true => some (afterValue (.bool pos true) stack)
  | .false => some (afterValue (.bool pos false) stack)
  | .null => some (afterValue (.null pos) stack)
  | _ => none

/-- The state after a token that starts at a position; `none` if the token cannot come here. -/
def next (s : ParseState) (pos : Position) (t : Token) : Option ParseState :=
  match s, t with
  | value stack, t => startValue stack pos t
  | firstItem start stack, .closeBracket => some (afterValue (.array start []) stack)
  | firstItem start stack, t => startValue (.array start [] :: stack) pos t
  | afterItem start items stack, .comma => some (value (.array start items :: stack))
  | afterItem start items stack, .closeBracket =>
    some (afterValue (.array start items.reverse) stack)
  | firstMember start stack, .closeBrace => some (afterValue (.object start []) stack)
  | firstMember start stack, .string k => some (afterKey start [] (pos, k) stack)
  | nextMember start members stack, .string k => some (afterKey start members (pos, k) stack)
  | afterKey start members key stack, .colon => some (value (.object start members key :: stack))
  | afterMember start members stack, .comma => some (nextMember start members stack)
  | afterMember start members stack, .closeBrace =>
    some (afterValue (.object start members.reverse) stack)
  | _, _ => none

end ParseState

/-- A place in a text: what was read, in reverse, and what follows. -/
structure Place where
  behind : Text
  ahead : Text
  position : Position

namespace Place

/-- The front of a text. -/
def front (t : Text) : Place := ⟨[], t, .start⟩

/-- The place `n` code points ahead. -/
def advance (n : Nat) (p : Place) : Place :=
  match n, p with
  | n + 1, ⟨behind, c :: ahead, position⟩ => advance n ⟨c :: behind, ahead, position.next c⟩
  | _, p => p

/-- The place of the next token. -/
def skipGaps (p : Place) : Place := p.advance (p.ahead.takeWhile CodePoint.isGap).length

/-- The failure to go on at a place. -/
def unexpected (p : Place) (expected : List TokenKind) : Failure :=
  .fault ⟨.unexpectedText expected p.position (p.behind.take 10).reverse (p.ahead.take 10), [],
    some p.position⟩

theorem advance_ahead (n : Nat) (p : Place) : (p.advance n).ahead = p.ahead.drop n := by
  fun_induction advance n p with
  | case1 n behind c ahead position ih => simp [ih]
  | case2 n p h =>
    cases n with
    | zero => rfl
    | succ n =>
      obtain ⟨behind, ahead, position⟩ := p
      cases ahead with
      | nil => rfl
      | cons c ahead => exact (h n behind c ahead position rfl rfl).elim

end Place

namespace Place

theorem advance_succ_ahead_length_lt {p : Place} {c : CodePoint} {rest : Text}
    (h : p.skipGaps.ahead = c :: rest) (n : Nat) :
    (p.skipGaps.advance (n + 1)).ahead.length < p.ahead.length := by
  have h₁ : (c :: rest).length ≤ p.ahead.length := by
    rw [← h, skipGaps, advance_ahead, List.length_drop]
    omega
  rw [advance_ahead, h, List.drop_succ_cons, List.length_drop]
  simp only [List.length_cons] at h₁
  omega

end Place

namespace Tree

/-- Reads on from a state, with at most `limit` containers open at a time. -/
def readFrom (limit : Nat) (s : ParseState) (p : Place) : Outcome Tree :=
  let q := p.skipGaps
  match _h : q.ahead with
  | [] =>
    match s with
    | .done t => .ok t
    | s => .error (q.unexpected s.expected)
  | c :: rest =>
    match Token.readAny? s.expected (c :: rest) with
    | some (token, n + 1) =>
      match s.next q.position token with
      | some s' =>
        if limit < s'.depth then refuse .nestingTooDeepToRead
        else readFrom limit s' (q.advance (n + 1))
      | none => .error (q.unexpected s.expected)
    | _ => .error (q.unexpected s.expected)
termination_by p.ahead.length
decreasing_by exact Place.advance_succ_ahead_length_lt ‹_› n

/-- The syntax tree of a text, with at most `limit` containers open at a time. -/
def read (limit : Nat) (t : Text) : Outcome Tree := readFrom limit (.value []) (.front t)

end Tree

end Clausal
