import Clausal.Fault.Outcome

/-!
# Configuration

Reading a document can be told to refuse unknown fields, and is limited to documents of a certain
size and nesting.
Settings come from outside as texts; a setting that is missing or blank leaves the default.
-/

namespace Clausal

/-- The options for reading documents. -/
structure Config where
  rejectUnknownFields : Bool := false
  maxDepth : Int := 64
  maxDocumentBytes : Int := 1024 * 1024
deriving DecidableEq

/-- Settings by name. -/
structure Settings where
  strictFields : Option Text := none
  maxDepth : Option Text := none
  maxDocumentBytes : Option Text := none

/-- The integer of a setting. -/
def readSetting (name : String) (default : Int) : Option Text → Outcome Int
  | none => .ok default
  | some t =>
    if isBlankText t then .ok default
    else match readInteger? t with
      | some n => .ok n
      | none => .error (.misuse (.malformedSetting name t))

/-- The options that settings ask for. -/
def Config.ofSettings (s : Settings) : Outcome Config := do
  let standard : Config := {}
  let maxDepth ← readSetting "PREDICATE_IR_MAX_DEPTH" standard.maxDepth s.maxDepth
  let maxDocumentBytes ←
    readSetting "PREDICATE_IR_MAX_DOCUMENT_BYTES" standard.maxDocumentBytes s.maxDocumentBytes
  return { rejectUnknownFields := s.strictFields == some ("1" : Text), maxDepth, maxDocumentBytes }

end Clausal
