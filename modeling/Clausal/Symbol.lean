import Clausal.Text.CodePoint

/-!
# Closed vocabularies

Three kinds of symbols are closed: the tags of nodes, the kinds of constants and the connectives.
A symbol's number on the wire is its place in the order of its vocabulary, and its spelling in the
authoring form is its name, save for the kinds of constants, which are spelled in lower case.
-/

namespace Clausal

/-- A closed vocabulary: its title, its symbols in the order of their numbers, and their names. -/
class Vocabulary (α : Type) where
  title : String
  all : List α
  name : α → String
  spelling : α → String := name

namespace Vocabulary

variable {α : Type} [Vocabulary α]

/-- The number of a symbol. -/
def index [BEq α] (s : α) : Nat := (all : List α).idxOf s

/-- The byte that holds the number of a symbol. -/
def byte [BEq α] (s : α) : UInt8 := UInt8.ofNat (index s)

/-- The symbol with a number. -/
def ofIndex? (i : Nat) : Option α := (all : List α)[i]?

/-- The symbol with a spelling. -/
def ofSpelling? (t : Text) : Option α :=
  (all : List α).find? fun s => Text.ofString (spelling s) == t

end Vocabulary

/-- What a node says it is. `compiledInput` names a family and no node carries it. -/
inductive NodeTag where
  | compiledPredicate
  | intermediateCompiledPredicate
  | atomicProposition
  | atomicPredicateCall
  | inputPredicateCall
  | variablePredicateCall
  | compiledPredicateCall
  | compiledInput
  | constantInput
  | labelInput
  | normalInput
  | variableInput
  | selfInput
deriving DecidableEq

/-- The name of a tag. -/
def NodeTag.name : NodeTag → String
  | compiledPredicate => "CompiledPredicate"
  | intermediateCompiledPredicate => "IntermediateCompiledPredicate"
  | atomicProposition => "AtomicProposition"
  | atomicPredicateCall => "AtomicPredicateCall"
  | inputPredicateCall => "InputPredicateCall"
  | variablePredicateCall => "VariablePredicateCall"
  | compiledPredicateCall => "CompiledPredicateCall"
  | compiledInput => "CompiledInput"
  | constantInput => "ConstantInput"
  | labelInput => "LabelInput"
  | normalInput => "NormalInput"
  | variableInput => "VariableInput"
  | selfInput => "SelfInput"

instance : Vocabulary NodeTag where
  title := "NodeTag"
  all :=
    [.compiledPredicate, .intermediateCompiledPredicate, .atomicProposition, .atomicPredicateCall,
      .inputPredicateCall, .variablePredicateCall, .compiledPredicateCall, .compiledInput,
      .constantInput, .labelInput, .normalInput, .variableInput, .selfInput]
  name := NodeTag.name

/-- What a declared constant holds. -/
inductive VarKind where
  | address
  | bytes
deriving DecidableEq

instance : Vocabulary VarKind where
  title := "VarKind"
  all := [.address, .bytes]
  name
    | .address => "Address"
    | .bytes => "Bytes"
  spelling
    | .address => "address"
    | .bytes => "bytes"

/-- How a contract joins its inputs. -/
inductive Connective where
  | and
  | forAll
  | not
  | or
  | thereExists
deriving DecidableEq

/-- The name of a connective. -/
def Connective.name : Connective → String
  | and => "And"
  | forAll => "ForAllSuchThat"
  | not => "Not"
  | or => "Or"
  | thereExists => "ThereExistsSuchThat"

instance : Vocabulary Connective where
  title := "LogicalConnective"
  all := [.and, .forAll, .not, .or, .thereExists]
  name := Connective.name

/-- Whether the connective binds a variable. -/
def Connective.isQuantifier : Connective → Bool
  | forAll | thereExists => true
  | _ => false

/-- Whether the connective joins any number of inputs from two on. -/
def Connective.isJunction : Connective → Bool
  | and | or => true
  | _ => false

/-- The tags of the four predicate calls, in the order of their variant numbers. -/
def callVariants : List NodeTag :=
  [.atomicPredicateCall, .inputPredicateCall, .variablePredicateCall, .compiledPredicateCall]

/-- The tags of the five compiled inputs, in the order of their variant numbers. -/
def inputVariants : List NodeTag :=
  [.constantInput, .labelInput, .normalInput, .variableInput, .selfInput]

/-- A symbol of any of the vocabularies. -/
inductive Symbol where
  | tag (t : NodeTag)
  | kind (k : VarKind)
  | connective (c : Connective)
deriving DecidableEq

namespace Symbol

/-- The title of the symbol's vocabulary. -/
def title : Symbol → String
  | tag _ => Vocabulary.title NodeTag
  | kind _ => Vocabulary.title VarKind
  | connective _ => Vocabulary.title Connective

/-- The name of the symbol. -/
def name : Symbol → String
  | tag t => Vocabulary.name t
  | kind k => Vocabulary.name k
  | connective c => Vocabulary.name c

/-- The number of the symbol within its vocabulary. -/
def index : Symbol → Nat
  | tag t => Vocabulary.index t
  | kind k => Vocabulary.index k
  | connective c => Vocabulary.index c

end Symbol

end Clausal
