import Clausal.Binary64.Shortest
import Clausal.Node.Showing

/-!
# Loosely typed arguments

Nodes are also built from arguments of any type. An argument is checked, and converted where it
stands for what is wanted: a text for its UTF-8 bytes, a number for the symbol with that number, a
sequence of any kind for its items. Symbols are numbers everywhere; truth values and whole fractions
only where a symbol is looked up. A node remembers by its marks which of its numbers were given as
symbols.
-/

namespace Clausal

/-- An argument of any type. Fractions are held as the bits of a double. -/
inductive Argument where
  | none
  | bool (b : Bool)
  | int (n : Int)
  | float (bits : UInt64)
  | text (t : Text)
  | bytes (bs : Bytes)
  | symbol (s : Symbol)
  | list (items : List Argument)
  | node (n : Node) (marks : Marks)

namespace Argument

/-- The symbols that were given for numbers of an argument. -/
def marks : Argument → Marks
  | symbol s => [([], s)]
  | list items => Marks.ofItems (items.map marks)
  | node _ ms => ms
  | _ => []
termination_by a => sizeOf a
decreasing_by
  have := List.sizeOf_lt_of_mem ‹_ ∈ items›
  simp only [list.sizeOf_spec]
  omega

/-- The name of an argument's type. -/
def typeName : Argument → String
  | none => "NoneType"
  | bool _ => "bool"
  | int _ => "int"
  | float _ => "float"
  | text _ => "str"
  | bytes _ => "bytes"
  | symbol s => s.title
  | list _ => "list"
  | node n _ => n.className

/-- The integer that an argument is. -/
def toInt? : Argument → Option Int
  | int n => some n
  | symbol s => some s.index
  | _ => Option.none

/-- The items of a sequence: of a list, of a text its characters, of bytes their numbers. Nothing
else has items, and to ask for them is a misuse. -/
def items : Argument → Outcome (List Argument)
  | list as => .ok as
  | text t => .ok (t.map fun c => text [c])
  | bytes bs => .ok (bs.map fun b => int b.toNat)
  | a => .error (.misuse (.notIterable a.typeName))

/-- The bytes that an argument stands for. -/
def toBytes : Argument → Outcome Bytes
  | bytes bs => .ok bs
  | text t =>
    match Utf8.encodeText? t with
    | some bs => .ok bs
    | Option.none => refuse .textNotUnicode
  | a => refuse (.notBytesOrText a.typeName)

/-- The names that a sequence holds. A single text or string of bytes is none. -/
def toNames : Argument → Outcome (List Bytes)
  | text _ | bytes _ => refuse .notNames
  | a => do forItems toBytes (← a.items)

/-- The input index that an argument stands for. -/
def toInputIndex (a : Argument) : Outcome UInt8 :=
  match a.toInt? with
  | some n => inputIndex n
  | Option.none => refuse (.indexNotInteger a.typeName)

/-- The selector that an argument stands for. -/
def toSelector (a : Argument) : Outcome Int8 :=
  match a.toInt? with
  | some n => selector n
  | Option.none => refuse (.selectorNotInteger a.typeName)

/-- The descent path that a sequence stands for. -/
def toSelectors (a : Argument) : Outcome (List Int8) := do forItems toSelector (← a.items)

/-- The number that an argument equals: truth values are zero and one, fractions can be whole. -/
def number? : Argument → Option Int
  | bool b => some b.toNat
  | float bits => Binary64.toInt? bits
  | a => a.toInt?

/-- Whether an argument is or holds an integer that is too long to be shown. -/
def isLong : Argument → Bool
  | int n => integerLimit ≤ n.natAbs
  | list items => (items.map isLong).any id
  | _ => false
termination_by a => sizeOf a
decreasing_by
  have := List.sizeOf_lt_of_mem ‹_ ∈ items›
  simp only [list.sizeOf_spec]
  omega

/-- An argument as it is shown among the items of a list. -/
def showItem : Argument → Text
  | none => "None"
  | bool b => if b then "True" else "False"
  | int n => Text.ofInt n
  | float bits => Text.ofString (Binary64.toText bits)
  | text t => Text.ofChars (quoteText t)
  | bytes bs => Text.ofBytes bs
  | symbol s => s.shown
  | list items => "[" ++ Text.joinWith ", " (items.map showItem) ++ "]"
  | node n ms => n.shown ms
termination_by a => sizeOf a
decreasing_by
  have := List.sizeOf_lt_of_mem ‹_ ∈ items›
  simp only [list.sizeOf_spec]
  omega

/-- An argument as it is shown where a symbol was wanted: a text without quotes, a symbol by its
number. -/
def describe : Argument → Text
  | text t => t
  | symbol s => Text.ofNat s.index
  | a => a.showItem

/-- The symbol of a vocabulary with the number that an argument equals. -/
def toSymbolByIndex {α : Type} [Vocabulary α] (a : Argument) : Outcome α :=
  match a.number? with
  | some (.ofNat i) =>
    match (Vocabulary.ofIndex? i : Option α) with
    | some s => .ok s
    | Option.none => unknown
  | _ => unknown
where
  unknown : Outcome α :=
    if a.isLong then .error (.misuse .integerTooLong)
    else refuse (.unknownIndex (Vocabulary.title α) a.describe)

/-- The tag that an argument is or has the number of. -/
def toTag : Argument → Outcome NodeTag
  | symbol (.tag t) => .ok t
  | a => a.toSymbolByIndex

/-- The kind of constant that an argument is or has the number of. -/
def toVarKind : Argument → Outcome VarKind
  | symbol (.kind k) => .ok k
  | a => a.toSymbolByIndex

/-- The connective that an argument is or has the number of. -/
def toConnective : Argument → Outcome Connective
  | symbol (.connective c) => .ok c
  | a => a.toSymbolByIndex

/-- The node that an argument is. -/
def toNode? : Argument → Option Node
  | node n _ => some n
  | _ => Option.none

/-- The compiled input that an argument is. -/
def toInput (a : Argument) : Outcome Input :=
  match a with
  | node (.input i) _ => .ok i
  | a => refuse (.notInputNode a.typeName)

/-- The predicate call that an argument is. -/
def toCall (a : Argument) : Outcome Call :=
  match a with
  | node (.call c) _ => .ok c
  | a => refuse (.notCallNode a.typeName)

/-- The parameter reference that an argument is; other arguments are refused for the cause that
`cause` makes of their type. -/
def toNormalInput (cause : String → Cause) (a : Argument) : Outcome NormalInput :=
  match a with
  | node (.input (.normal i)) _ => .ok i
  | a => refuse (cause a.typeName)

/-- The contract entry that input `i` is. A text or bytes are the name of a placeholder, which is
built by itself: what is wrong with the name is told without the way to the input. -/
def toEntry (i : Nat) (a : Argument) : Outcome Entry :=
  match a with
  | node (.proposition p) _ => .ok (.proposition p)
  | node (.placeholder name) _ => .ok (.placeholder name)
  | text _ | bytes _ => inField "name" (.placeholder <$> a.toBytes)
  | a => inField "inputs" (inItem i (refuse (.notEntryNode a.typeName)))

/-- The contract that an argument is. -/
def toContract (a : Argument) : Outcome Contract :=
  match a with
  | node (.contract c) _ => .ok c
  | a => refuse (.notContractNode a.typeName)

/-- The declared constant that an argument is. -/
def toConstant (a : Argument) : Outcome Constant :=
  match a with
  | node (.constant c) _ => .ok c
  | a => refuse (.notConstantNode a.typeName)

/-- The optional truth value that an argument is. -/
def toBool? : Argument → Outcome (Option Bool)
  | none => .ok Option.none
  | bool b => .ok (some b)
  | _ => refuse .notBoolean

end Argument

end Clausal
