/-!
# Kinds of faults

Every fault is of one kind, and every kind has a name and a stable code.
-/

namespace Clausal

/-- The kinds of faults. `general` belongs to no particular cause. -/
inductive FaultKind where
  | general
  | unknownTag
  | tagShapeMismatch
  | missingField
  | typeMismatch
  | unknownField
  | outOfRangeIndex
  | unboundPlaceholder
  | invalidCallTarget
  | malformedConnectiveArity
  | duplicateName
  | truncatedInput
  | trailingBytes
  | nonCanonicalEncoding
  | authoringSyntaxError
  | documentTooLarge
deriving DecidableEq

namespace FaultKind

/-- The name of a kind. -/
def name : FaultKind → String
  | general => "IRError"
  | unknownTag => "UnknownTag"
  | tagShapeMismatch => "TagShapeMismatch"
  | missingField => "MissingField"
  | typeMismatch => "TypeMismatch"
  | unknownField => "UnknownField"
  | outOfRangeIndex => "OutOfRangeIndex"
  | unboundPlaceholder => "UnboundPlaceholder"
  | invalidCallTarget => "InvalidCallTarget"
  | malformedConnectiveArity => "MalformedConnectiveArity"
  | duplicateName => "DuplicateName"
  | truncatedInput => "TruncatedInput"
  | trailingBytes => "TrailingBytes"
  | nonCanonicalEncoding => "NonCanonicalEncoding"
  | authoringSyntaxError => "AuthoringSyntaxError"
  | documentTooLarge => "DocumentTooLarge"

/-- The stable code of a kind. -/
def code : FaultKind → String
  | general => "ERR_IR"
  | unknownTag => "ERR_UNKNOWN_TAG"
  | tagShapeMismatch => "ERR_TAG_SHAPE_MISMATCH"
  | missingField => "ERR_MISSING_FIELD"
  | typeMismatch => "ERR_TYPE_MISMATCH"
  | unknownField => "ERR_UNKNOWN_FIELD"
  | outOfRangeIndex => "ERR_OUT_OF_RANGE_INDEX"
  | unboundPlaceholder => "ERR_UNBOUND_PLACEHOLDER"
  | invalidCallTarget => "ERR_INVALID_CALL_TARGET"
  | malformedConnectiveArity => "ERR_MALFORMED_CONNECTIVE_ARITY"
  | duplicateName => "ERR_DUPLICATE_NAME"
  | truncatedInput => "ERR_TRUNCATED_INPUT"
  | trailingBytes => "ERR_TRAILING_BYTES"
  | nonCanonicalEncoding => "ERR_NON_CANONICAL_ENCODING"
  | authoringSyntaxError => "ERR_SYNTAX"
  | documentTooLarge => "ERR_DOCUMENT_TOO_LARGE"

/-- The kinds that causes have. -/
def all : List FaultKind :=
  [unknownTag, tagShapeMismatch, missingField, typeMismatch, unknownField, outOfRangeIndex,
    unboundPlaceholder, invalidCallTarget, malformedConnectiveArity, duplicateName, truncatedInput,
    trailingBytes, nonCanonicalEncoding, authoringSyntaxError, documentTooLarge]

end FaultKind

end Clausal
