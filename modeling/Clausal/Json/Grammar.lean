import Clausal.Json.Token
import Clausal.Peg.Matching

/-!
# The grammar of authoring texts

Objects, arrays and members are rules, and the tokens of a text are its terminals. A comma has to be
followed by another item, and behind the value of a text nothing may come but white space.
-/

namespace Clausal

open Peg (Expr Grammar)

/-- The rules of the grammar. -/
inductive Rule where
  | document
  | value
  | object
  | array
  | member
deriving DecidableEq

/-- Nothing, or expressions of one kind with commas between them. -/
def Rule.separated (e : Expr TokenKind Rule) : Expr TokenKind Rule :=
  .optional (.sequence [e, .repeated (.sequence [.terminal .comma, e])])

/-- The expression of a rule. -/
def Rule.body : Rule → Expr TokenKind Rule
  | document => .sequence [.rule value, .terminal .endOfText]
  | value => .choice [.rule object, .rule array, .terminal .string, .terminal .number,
      .terminal .true, .terminal .false, .terminal .null]
  | object => .sequence [.terminal .openBrace, separated (.rule member), .terminal .closeBrace]
  | array => .sequence [.terminal .openBracket, separated (.rule value), .terminal .closeBracket]
  | member => .sequence [.terminal .string, .terminal .colon, .rule value]

/-- The length of the token of a kind at the front of a text. Only the end of a text has none. -/
def TokenKind.length? (k : TokenKind) (t : Text) : Option Nat :=
  if k = endOfText then
    if t.isEmpty then some 0 else none
  else (Token.read? k t).map Prod.snd

/-- Whether a code point may stand between tokens. -/
def CodePoint.isGap (c : CodePoint) : Bool :=
  c = .scalar ' ' || c = .scalar '\t' || c = .scalar '\r' || c = .scalar '\n'

/-- The grammar of authoring texts. -/
def Rule.grammar : Grammar TokenKind Rule where
  body := body
  start := document
  length? := TokenKind.length?
  isBlank := CodePoint.isGap

end Clausal
