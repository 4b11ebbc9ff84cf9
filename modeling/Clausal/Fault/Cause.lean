import Clausal.Fault.Kind
import Clausal.Json.TokenKind
import Clausal.Symbol
import Clausal.Text.Position
import Clausal.Text.Utf8

/-!
# Causes of faults

A cause says why nodes, bytes or documents are refused, with everything that a message shows. The
kind of a fault is a function of its cause.
-/

namespace Clausal

/-- Why an operation on nodes, bytes or documents is refused. -/
inductive Cause where
  -- symbols
  | unknownSpelling (title : String) (found : Text)
  | unknownIndex (title : String) (found : Text)
  | unknownVariant (index offset : Nat)
  | unknownEntryVariant (index offset : Nat)
  -- tags
  | tagOfNode (node : String) (found expected : NodeTag)
  | tagOnWire (found offset : Nat) (expected : NodeTag)
  | tagOfObject (found expected : NodeTag)
  | tagOfNormalInput (found : NodeTag)
  | tagOfCallTarget (found : NodeTag)
  | notCompiledInput (found : NodeTag)
  | notPredicateCall (found : NodeTag)
  | propertyInputNode (found : String)
  -- fields
  | missingField (name : String)
  | emptyEntryPoint
  | unknownField (name : Text)
  -- types
  | notBytesOrText (found : String)
  | textNotUnicode
  | notNames
  | notCallNode (found : String)
  | notInputNode (found : String)
  | notBoolean
  | notEntryNode (found : String)
  | notContractNode (found : String)
  | notConstantNode (found : String)
  | callTargetNode (found : String)
  | indexNotInteger (found : String)
  | indexNotByte (found : Int)
  | selectorNotInteger (found : String)
  | wrongJsonType (expected found : String)
  | stringNotUnicode
  | entryJsonType (found : String)
  | callTargetNotObject
  | fieldNotUtf8
  | cannotEncode (found : String)
  | cannotDecode (found : String)
  | cannotProject (found : String)
  -- addresses
  | indexOutOfRange (index arity : Nat)
  | selectorOutOfRange (found : Int)
  | unboundVariable (name : Bytes)
  -- shapes
  | quantifierArity (connective : Connective) (found : Nat)
  | quantifierSlot (connective : Connective) (slot : Nat)
  | negationArity (found : Nat)
  | junctionArity (connective : Connective) (found : Nat)
  | duplicateName (name : Bytes)
  | duplicateField (name : Text)
  -- bytes
  | truncated (needed offset left : Nat)
  | sequenceTooLong (count offset : Nat)
  | trailingBytes (left offset : Nat)
  | flagByte (what : String) (found offset : Nat)
  | zeroHighByte (offset : Nat)
  | notMinimal (value offset : Nat)
  | compactNegative (value : Int)
  | compactTooLarge (value : Nat)
  -- texts
  | malformedUtf8 (found : Utf8.Malformed)
  | unexpectedText (expected : List TokenKind) (position : Position) (before after : Text)
  | integerTooLong (length : Nat)
  | documentTooLarge (size : Nat) (limit : Int)
  | nestingTooDeep (depth : Nat) (limit : Int)
  | nestingTooDeepToRead
deriving DecidableEq

namespace Cause

/-- The kind of a cause. -/
def kind : Cause → FaultKind
  | unknownSpelling .. | unknownIndex .. | unknownVariant .. | unknownEntryVariant .. => .unknownTag
  | tagOfNode .. | tagOnWire .. | tagOfObject .. | tagOfNormalInput .. | notCompiledInput ..
  | notPredicateCall .. | propertyInputNode .. => .tagShapeMismatch
  | missingField .. | emptyEntryPoint => .missingField
  | unknownField .. => .unknownField
  | notBytesOrText .. | textNotUnicode | notNames | notCallNode ..
  | notInputNode .. | notBoolean | notEntryNode .. | notContractNode .. | notConstantNode ..
  | indexNotInteger .. | indexNotByte .. | selectorNotInteger .. | wrongJsonType ..
  | stringNotUnicode | entryJsonType .. | fieldNotUtf8 | cannotEncode .. | cannotDecode ..
  | cannotProject .. | compactNegative .. | compactTooLarge .. => .typeMismatch
  | indexOutOfRange .. | selectorOutOfRange .. => .outOfRangeIndex
  | unboundVariable .. => .unboundPlaceholder
  | tagOfCallTarget .. | callTargetNode .. | callTargetNotObject => .invalidCallTarget
  | quantifierArity .. | quantifierSlot .. | negationArity .. | junctionArity .. =>
    .malformedConnectiveArity
  | duplicateName .. | duplicateField .. => .duplicateName
  | truncated .. | sequenceTooLong .. => .truncatedInput
  | trailingBytes .. => .trailingBytes
  | flagByte .. | zeroHighByte .. | notMinimal .. => .nonCanonicalEncoding
  | malformedUtf8 .. | unexpectedText .. => .authoringSyntaxError
  | integerTooLong .. | documentTooLarge .. | nestingTooDeep .. | nestingTooDeepToRead =>
    .documentTooLarge

end Cause

end Clausal
