import Clausal.Json.Visitor
import Clausal.Peg.Engine

/-!
# Reading JSON texts

A text is matched against the grammar, and the value is what its parse tree gives. A text that does
not match is refused at the place where terminals were missed farthest ahead.
-/

namespace Clausal

/-- A parser for authoring texts. -/
abbrev Parser := Peg.Engine Rule.grammar

/-- The parser that matches texts against the grammar as it stands. -/
def Parser.standard : Parser := .matcher _ 1000 (by decide)

/-- The failure to match a text: none of the terminals that were missed stands at their place. -/
def Text.unmatched (t : Text) (place : Nat → Position) (missed : Peg.Missed TokenKind) : Failure :=
  let position := place missed.offset
  .fault ⟨.unexpectedText missed.kinds.eraseDups position
    ((t.take missed.offset).drop (missed.offset - 10)) ((t.drop missed.offset).take 10), [],
    some position⟩

namespace Located

/-- The located value that a text spells. -/
def parse (parser : Parser) (t : Text) : Outcome Located :=
  match parser.parse t with
  | none => .error (.misuse .callsTooDeep)
  | some (.noMatch missed) => .error (t.unmatched (parser.lineColumn t) missed)
  | some (.tree root) => do
    match ← Visited.ofNode (parser.lineColumn t) root with
    | .value l => return l
    | _ => lacksPart

end Located

end Clausal
