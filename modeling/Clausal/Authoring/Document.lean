import Clausal.Config
import Clausal.Trace.Noted

/-!
# Documents

A document is a text, a text in UTF-8 or a value that was loaded elsewhere, and it is read within
the limits of the configuration. What was read from a text remembers where it and its parts start.
The parts of a document are documents.
-/

namespace Clausal

/-- Where a document comes from. -/
inductive Source where
  | text (t : Text)
  | bytes (bs : Bytes)
  | loaded (j : Json)

/-- A document: a value, with positions if it was read from a text. -/
inductive Document where
  | loaded (j : Json)
  | located (l : Located)

namespace Document

/-- The value of a document. -/
def value : Document → Json
  | loaded j => j
  | located l => l.plain

/-- The position at which a document starts, if it was read from a text. -/
def start? : Document → Option Position
  | loaded _ => none
  | located l => some l.start

/-- Whether the document is null. -/
def isNull : Document → Bool
  | loaded .null | located (.null _) => true
  | _ => false

/-- The text of a string. -/
def text? : Document → Option Text
  | loaded (.string t) | located (.string _ t) => some t
  | _ => none

/-- The items of an array. -/
def items? : Document → Option (List Document)
  | loaded (.array js) => some (js.map loaded)
  | located (.array _ ls) => some (ls.map located)
  | _ => none

/-- The members of an object. -/
def members? : Document → Option (List (Text × Document))
  | loaded (.object ms) => some (ms.map fun m => (m.1, loaded m.2))
  | located (.object _ ms) => some (ms.map fun m => (m.1, located m.2))
  | _ => none

end Document

namespace Source

/-- The source of a loaded value; a string is a text that is still to be read. -/
def ofJson : Json → Source
  | .string t => text t
  | j => loaded j

/-- The size of a text or of bytes. -/
def size? : Source → Option Nat
  | text t => some (Text.utf8Size t)
  | bytes bs => some bs.length
  | loaded _ => none

/-- Refuses what exceeds a limit. The wording shows what was found and the limit, and both have to
be short enough for it. -/
def checkLimit (found : Nat) (limit : Int) (cause : Nat → Int → Cause) : Outcome Unit :=
  if limit < found then
    if found < integerLimit then refuseShowing limit (cause found limit)
    else .error (.misuse .integerTooLong)
  else .ok ()

/-- Refuses a text that is too large. -/
def checkSize (config : Config) (s : Source) : Outcome Unit :=
  match s.size? with
  | some n => checkLimit n config.maxDocumentBytes .documentTooLarge
  | none => .ok ()

/-- The document of what was read from a text. A text is refused if its nesting is too deep for the
parser. -/
def ofReading (x : Traced Located) : Traced Document :=
  tryCatch (Document.located <$> x) fun
    | .misuse .callsTooDeep => liftM (m := Outcome) (refuse .nestingTooDeepToRead)
    | e => throw e

/-- The document of a source, whatever its size. -/
def read (parser : Parser) : Source → Traced Document
  | text t => ofReading (Located.parseNoted parser t)
  | bytes bs => ofReading (Located.parseBytesNoted parser bs)
  | loaded j => pure (.loaded j)

/-- Refuses a document that is nested too deeply. -/
def checkDepth (config : Config) (d : Document) : Outcome Unit :=
  checkLimit d.value.depth config.maxDepth .nestingTooDeep

/-- The document of a source within the limits of the configuration. -/
def load (parser : Parser) (config : Config) (s : Source) : Traced Document := do
  checkSize config s
  let d ← s.read parser
  checkDepth config d
  return d

end Source

end Clausal
