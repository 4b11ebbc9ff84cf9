/-!
# Kinds of tokens

What an authoring text is made of, as far as messages speak of it.
-/

namespace Clausal

/-- What an authoring text can hold at a place where it may go on. -/
inductive TokenKind where
  | openBrace
  | closeBrace
  | openBracket
  | closeBracket
  | colon
  | comma
  | string
  | number
  | true
  | false
  | null
  | endOfText
deriving DecidableEq

/-- The name of a kind of token. -/
def TokenKind.name : TokenKind → String
  | openBrace => "'\x7b'"
  | closeBrace => "'\x7d'"
  | openBracket => "'['"
  | closeBracket => "']'"
  | colon => "':'"
  | comma => "','"
  | string => "json_string"
  | number => "json_number"
  | .true => "json_true"
  | .false => "json_false"
  | null => "json_null"
  | endOfText => "EOF"

end Clausal
