import Clausal.Authoring.Writing
import Clausal.Node.Argument
import Clausal.Wire.Slot

/-!
# Forms of arguments

Both forms are asked of arguments of any type. Nodes have them, a connective has the authoring form
alone, and everything else is refused.
-/

namespace Clausal.Argument

/-- The binary form of an argument. -/
def encode : Argument → Outcome Bytes
  | node n _ => n.encode
  | a => refuse (.cannotEncode a.typeName)

/-- The authoring form of an argument. -/
def toJson : Argument → Outcome Json
  | node n _ => n.toJson
  | symbol (.connective c) => .ok (.string (Text.ofString c.name))
  | a => refuse (.cannotProject a.typeName)

end Clausal.Argument
