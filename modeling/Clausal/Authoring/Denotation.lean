import Clausal.Authoring.Reading

/-!
# What documents denote

A document denotes a node, provided that the node is valid as far as its surroundings are given.
What validation finds is placed in the text by the table of positions that lowering has left.
-/

namespace Clausal.Source

/-- The predicate of a document, validated. -/
def toPredicate (parser : Parser) (config : Config) (s : Source) : Traced Predicate := do
  let d ← s.load parser config
  let (p, known) ← (Predicate.lower config d []).run []
  let b ← known.place p.validate
  Traced.note (.validated p.name p.contracts.length b.binders)
  Traced.note (.denoted p.name p.contracts.length b.binders)
  return p

/-- The contract of a document, validated for the variables it inherits and the parameters of its
owner, if they are given. -/
def toContract (parser : Parser) (config : Config) (s : Source) (inherited : List Bytes)
    (ownerDefs : Option (List Bytes)) : Traced Contract := do
  let d ← s.load parser config
  let (c, known) ← (Contract.lower config d []).run []
  let _ ← known.place (c.validate inherited ownerDefs)
  return c

/-- The proposition of a document, validated if the parameters of its contract are given. -/
def toProposition (parser : Parser) (config : Config) (s : Source) (defs : Option (List Bytes))
    (scope : List Bytes) : Traced Proposition := do
  let d ← s.load parser config
  let (p, known) ← (Proposition.lower config d []).run []
  match defs with
  | some defs => known.place (p.validate defs.length scope)
  | none => pure ()
  return p

/-- The predicate call of a document. -/
def toCall (parser : Parser) (config : Config) (s : Source) : Traced Call := do
  let d ← s.load parser config
  (Call.lower config d []).run' []

/-- Checks an input against the parameters of its contract and the variables in scope, as far as
they are given. -/
def checkInput (defs scope : Option (List Bytes)) : Input → Outcome Unit
  | .normal i =>
    match defs with
    | some defs => i.validate defs.length
    | none => .ok ()
  | .var name _ =>
    match scope with
    | some scope => inField "placeholder" (checkVisible scope name)
    | none => .ok ()
  | .constant _ | .label _ | .self _ => .ok ()

/-- The compiled input of a document, checked as far as its surroundings are given. -/
def toInput (parser : Parser) (config : Config) (s : Source) (defs scope : Option (List Bytes)) :
    Traced Input := do
  let d ← s.load parser config
  let (i, known) ← (Input.lower config d []).run []
  known.place (checkInput defs scope i)
  return i

/-- The declared constant of a document. -/
def toConstant (parser : Parser) (config : Config) (s : Source) : Traced Constant := do
  let d ← s.load parser config
  (Constant.lower config d []).run' []

/-- The connective of a document. -/
def toConnective (parser : Parser) (config : Config) (s : Source) : Traced Connective := do
  let d ← s.load parser config
  (Lowering.scalar Json.asSymbol d []).run' []

end Clausal.Source
