import Clausal.Fault.Cause
import Clausal.Text.Quoted

/-!
# The wording of causes

One line of text for every cause. Names that come from outside are quoted, offsets and counts are
written in decimal, and bytes in hexadecimal digits.
-/

namespace Clausal.Cause

/-- The wording of the reason for which bytes are not UTF-8. -/
def reasonText : Utf8.Reason → String
  | .invalidStart => "invalid start byte"
  | .invalidContinuation => "invalid continuation byte"
  | .endOfData => "unexpected end of data"

/-- The wording for bytes that are not UTF-8: the only byte is shown, more are counted. -/
def malformedText (m : Utf8.Malformed) : String :=
  let place :=
    if m.length = 1 then
      "byte 0x" ++ String.ofList (hexDigits 2 m.first.toNat) ++ " in position " ++ toString m.start
    else
      "bytes in position " ++ toString m.start ++ "-" ++ toString (m.start + m.length - 1)
  "'utf-8' codec can't decode " ++ place ++ ": " ++ reasonText m.reason

/-- The tag that a number on the wire stands for, or the number itself. -/
def wireTagText (found : Nat) : String :=
  match (Vocabulary.ofIndex? found : Option NodeTag) with
  | some t => t.name
  | none => "#" ++ toString found

/-- The surroundings of a place in a text on one line, the place marked by an asterisk. -/
def surroundings (before after : Text) : Text :=
  (before ++ ("*" : Text) ++ after).filterMap fun c =>
    if c = .scalar '\n' then some (.scalar ' ') else if c = .scalar '\r' then none else some c

/-- The quoted name of bytes that may not be UTF-8. -/
def shownName (name : Bytes) : List Char := quoteText (Text.ofChars (Utf8.decodeLossy name))

/-- The wording of a cause. -/
def message : Cause → Text
  | unknownSpelling title found =>
    Text.ofString ("unknown " ++ title ++ " ") ++ Text.ofChars (quoteText found)
  | unknownIndex title found => Text.ofString ("unknown " ++ title ++ " index ") ++ found
  | unknownVariant i offset =>
    Text.ofString ("unknown variant index " ++ toString i ++ " at offset " ++ toString offset)
  | unknownEntryVariant i offset =>
    Text.ofString ("contract input variant " ++ toString i ++ " at offset " ++ toString offset ++
      " is neither proposition nor placeholder")
  | tagOfNode node found expected =>
    Text.ofString (node ++ " carries tag " ++ found.name ++ ", expected " ++ expected.name)
  | tagOnWire found offset expected =>
    Text.ofString ("found tag " ++ wireTagText found ++ " at offset " ++ toString offset ++
      ", expected " ++ expected.name)
  | tagOfObject found expected =>
    Text.ofString ("expected a " ++ expected.name ++ " node, got " ++ found.name)
  | tagOfNormalInput found | tagOfCallTarget found =>
    Text.ofString ("expected a NormalInput, got " ++ found.name)
  | notCompiledInput found => Text.ofString (found.name ++ " is not a compiled input")
  | notPredicateCall found => Text.ofString (found.name ++ " is not a predicate call")
  | propertyInputNode found =>
    Text.ofString ("property input must be a NormalInput, got " ++ found)
  | missingField name => Text.ofString ("missing field '" ++ name ++ "'")
  | emptyEntryPoint => "entryPoint must be non-empty"
  | unknownField name => Text.ofString "unknown field " ++ Text.ofChars (quoteText name)
  | notBytesOrText found => Text.ofString ("expected bytes or str, got " ++ found)
  | textNotUnicode => "text is not valid Unicode"
  | notNames => "expected a sequence of names"
  | notCallNode found => Text.ofString ("predicate must be a PredicateCall, got " ++ found)
  | notInputNode found => Text.ofString ("expected a CompiledInput, got " ++ found)
  | notBoolean => "isCompiled must be a boolean"
  | notEntryNode found =>
    Text.ofString ("contract input must be a proposition or placeholder, got " ++ found)
  | notContractNode found => Text.ofString ("expected a Contract, got " ++ found)
  | notConstantNode found => Text.ofString ("expected a ConstantVariable, got " ++ found)
  | callTargetNode found => Text.ofString ("call target must be a NormalInput, got " ++ found)
  | indexNotInteger found => Text.ofString ("input index must be an integer, got " ++ found)
  | indexNotByte found =>
    Text.ofString ("input index " ++ toString found ++ " does not fit in an unsigned byte")
  | selectorNotInteger found =>
    Text.ofString ("descent selector must be an integer, got " ++ found)
  | wrongJsonType expected found =>
    Text.ofString ("expected " ++ expected ++ ", got " ++ found)
  | stringNotUnicode => "string is not valid Unicode text"
  | entryJsonType found =>
    Text.ofString ("contract input must be a placeholder string or a proposition, got " ++ found)
  | callTargetNotObject => "call target must be a NormalInput object"
  | fieldNotUtf8 => "field is not valid UTF-8 text"
  | cannotEncode found => Text.ofString ("cannot encode " ++ found)
  | cannotDecode found => Text.ofString ("cannot decode " ++ found)
  | cannotProject found => Text.ofString ("cannot project " ++ found)
  | indexOutOfRange i arity =>
    Text.ofString ("input index " ++ toString i ++ " out of range for " ++ toString arity ++
      " input definition(s)")
  | selectorOutOfRange found =>
    Text.ofString ("descent selector " ++ toString found ++ " outside [-128, 127]")
  | unboundVariable name =>
    Text.ofString "variable " ++ Text.ofChars (shownName name) ++
      Text.ofString " is not bound by any enclosing quantifier"
  | quantifierArity c found =>
    Text.ofString (c.name ++ " takes [collection, variable, body], got " ++ toString found ++
      " input(s)")
  | quantifierSlot c slot =>
    Text.ofString (c.name ++ " slot " ++ toString slot ++ " must be a placeholder")
  | negationArity found => Text.ofString ("Not takes exactly one input, got " ++ toString found)
  | junctionArity c found =>
    Text.ofString (c.name ++ " takes at least two inputs, got " ++ toString found)
  | duplicateName name => Text.ofString "duplicate name " ++ Text.ofChars (shownName name)
  | duplicateField name => Text.ofString "duplicate field " ++ Text.ofChars (quoteText name)
  | truncated needed offset left =>
    Text.ofString ("needed " ++ toString needed ++ " byte(s) at offset " ++ toString offset ++
      ", " ++ toString left ++ " left")
  | sequenceTooLong count offset =>
    Text.ofString ("sequence of " ++ toString count ++ " item(s) at offset " ++ toString offset ++
      " exceeds remaining input")
  | trailingBytes left offset =>
    Text.ofString (toString left ++ " unused byte(s) after offset " ++ toString offset)
  | flagByte what found offset =>
    Text.ofString (what ++ " byte 0x" ++ String.ofList (hexDigits 2 found) ++ " at offset " ++
      toString offset)
  | zeroHighByte offset =>
    Text.ofString ("compact integer at offset " ++ toString offset ++ " has a zero high byte")
  | notMinimal value offset =>
    Text.ofString ("compact integer " ++ toString value ++ " at offset " ++ toString offset ++
      " is not minimally encoded")
  | compactNegative value =>
    Text.ofString ("compact integers are unsigned, got " ++ toString value)
  | compactTooLarge value =>
    Text.ofString ("integer " ++ toString value ++ " too large for compact encoding")
  | malformedUtf8 found => Text.ofString ("document is not valid UTF-8: " ++ malformedText found)
  | unexpectedText expected position before after =>
    Text.ofString ("malformed authoring document: Expected " ++
      String.intercalate " or " (expected.map TokenKind.name) ++ " at position (" ++
      toString position.line ++ ", " ++ toString position.column ++ ") => '") ++
      surroundings before after ++ Text.ofString "'."
  | integerTooLong length =>
    Text.ofString ("integer literal of " ++ toString length ++ " digit(s) is too long")
  | documentTooLarge size limit =>
    Text.ofString ("document of " ++ toString size ++ " byte(s) exceeds limit of " ++
      toString limit)
  | nestingTooDeep depth limit =>
    Text.ofString ("document nesting depth " ++ toString depth ++ " exceeds limit of " ++
      toString limit)
  | nestingTooDeepToRead => "document nesting too deep to parse"

end Clausal.Cause
