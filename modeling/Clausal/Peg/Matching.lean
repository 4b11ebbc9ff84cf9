import Clausal.Text.CodePoint

/-!
# Parsing expression grammars

A grammar names expressions over kinds of terminals. Matching goes through an expression from left
to right: the first alternative that matches is taken, what is optional or repeated is taken where
it matches, and each terminal is looked for behind the white space at its place. Where nothing
matches the text is gone back in, but the terminals that were missed farthest ahead are remembered.

Expressions are matched by calls that nest as the expressions do, and there is room for a certain
number of them only.
-/

namespace Clausal.Peg

/-- An expression over kinds of terminals and names of rules. -/
inductive Expr (κ ν : Type) where
  | terminal (k : κ)
  | rule (r : ν)
  | sequence (es : List (Expr κ ν))
  | choice (es : List (Expr κ ν))
  | optional (e : Expr κ ν)
  | repeated (e : Expr κ ν)

/-- The expressions of the rules, the rule for whole texts, the length of the terminal of a kind at
the front of a text, and the white space. -/
structure Grammar (κ ν : Type) where
  body : ν → Expr κ ν
  start : ν
  length? : κ → Text → Option Nat
  isBlank : CodePoint → Bool

/-- A node of a parse tree: a terminal with its place and its text, or a rule with the nodes that
its expression matched, however deep inside it. -/
inductive ParseNode (κ ν : Type) where
  | terminal (k : κ) (offset : Nat) (text : Text)
  | rule (r : ν) (children : List (ParseNode κ ν))

/-- The terminals that were missed at the farthest place, in the order in which they were tried. -/
structure Missed (κ : Type) where
  offset : Nat := 0
  kinds : List κ := []

/-- The place that matching has come to. -/
structure State (κ : Type) where
  offset : Nat
  ahead : Text
  missed : Missed κ

/-- What matching an expression comes to. -/
inductive Result (κ ν : Type) where
  | matched (nodes : List (ParseNode κ ν)) (s : State κ)
  | failed (missed : Missed κ)

/-- What matching a text comes to. -/
inductive Answer (κ ν : Type) where
  | tree (root : ParseNode κ ν)
  | noMatch (missed : Missed κ)

variable {κ ν : Type}

/-- The place of a node is that of its first terminal. -/
def ParseNode.offset : ParseNode κ ν → Nat
  | terminal _ offset _ => offset
  | rule _ [] => 0
  | rule _ (child :: _) => child.offset

/-- Remembers that a terminal was missed, unless others were missed farther ahead. -/
def Missed.add (m : Missed κ) (offset : Nat) (k : κ) : Missed κ :=
  if m.offset < offset then ⟨offset, [k]⟩
  else if m.offset = offset then ⟨offset, m.kinds ++ [k]⟩
  else m

/-- The front of a text. -/
def State.front (t : Text) : State κ := ⟨0, t, {}⟩

/-- The place `n` code points ahead. -/
def State.advance (s : State κ) (n : Nat) : State κ :=
  { s with offset := s.offset + n, ahead := s.ahead.drop n }

namespace Result

/-- Puts nodes in front of those that were matched. -/
def prepend (nodes : List (ParseNode κ ν)) : Result κ ν → Result κ ν
  | matched more s => matched (nodes ++ more) s
  | failed m => failed m

/-- Makes one node of those that were matched. -/
def wrap (r : ν) : Result κ ν → Result κ ν
  | matched nodes s => matched [.rule r nodes] s
  | failed m => failed m

/-- Goes on at `s` without any nodes if nothing matched. -/
def orNothing (s : State κ) : Result κ ν → Result κ ν
  | matched nodes s' => matched nodes s'
  | failed m => matched [] { s with missed := m }

/-- What the result says of the text that was matched against a rule. -/
def answer? : Result κ ν → Option (Answer κ ν)
  | matched [root] _ => some (.tree root)
  | matched _ _ => none
  | failed m => some (.noMatch m)

end Result

section Steps

variable (match? : Expr κ ν → State κ → Option (Result κ ν))

/-- Matches expressions one behind the other. -/
def matchAll : List (Expr κ ν) → State κ → Option (Result κ ν)
  | [], s => some (.matched [] s)
  | e :: es, s =>
    match match? e s with
    | some (.matched nodes s') => (matchAll es s').map (Result.prepend nodes)
    | other => other

/-- Matches the first expression that can be matched. -/
def matchFirst : List (Expr κ ν) → State κ → Option (Result κ ν)
  | [], s => some (.failed s.missed)
  | e :: es, s =>
    match match? e s with
    | some (.failed m) => matchFirst es { s with missed := m }
    | other => other

/-- Matches an expression as often as it can be matched. There is no end if it matches nothing. -/
def matchOften (e : Expr κ ν) (s : State κ) : Option (Result κ ν) :=
  match match? e s with
  | some (.matched nodes s') =>
    if s'.ahead.length < s.ahead.length then (matchOften e s').map (Result.prepend nodes)
    else none
  | some (.failed m) => some (.matched [] { s with missed := m })
  | none => none
termination_by s.ahead.length

end Steps

namespace Grammar

variable (g : Grammar κ ν)

/-- The place behind the white space. -/
def skip (s : State κ) : State κ := s.advance (s.ahead.takeWhile g.isBlank).length

/-- Matches a terminal behind the white space. -/
def matchTerminal (k : κ) (s : State κ) : Result κ ν :=
  let s := g.skip s
  match g.length? k s.ahead with
  | some n => .matched [.terminal k s.offset (s.ahead.take n)] (s.advance n)
  | none => .failed (s.missed.add s.offset k)

/-- Matches an expression by calls that nest at most as deep as there is room; `none` if they would
nest deeper. -/
def match? : Nat → Expr κ ν → State κ → Option (Result κ ν)
  | 0, _, _ => none
  | _ + 1, .terminal k, s => some (g.matchTerminal k s)
  | room + 1, .rule r, s => (match? room (g.body r) s).map (Result.wrap r)
  | room + 1, .sequence es, s => matchAll (match? room) es s
  | room + 1, .choice es, s => matchFirst (match? room) es s
  | room + 1, .optional e, s => (match? room e s).map (Result.orNothing s)
  | room + 1, .repeated e, s => matchOften (match? room) e s

/-- Matches a text against the grammar, if there is room for the calls. -/
def answer? (room : Nat) (t : Text) : Option (Answer κ ν) :=
  (g.match? room (.rule g.start) (.front t)).bind Result.answer?

end Grammar

end Clausal.Peg
