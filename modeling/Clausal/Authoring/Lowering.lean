import Clausal.Authoring.Fields
import Clausal.Authoring.Positions
import Clausal.Node.Predicate

/-!
# Lowering

How a document is taken apart: values of the type that is wanted, members by the names of fields,
required or optional, and the tag that says what an object is. Objects and arrays record where
they and their parts start. A fault carries the path of the value at fault, or of the field that is
missing, and a position as far as one is known.
-/

namespace Clausal

namespace Json

/-- Refuses a value of another type than the one wanted. -/
def mismatch {α : Type} (expected : String) (j : Json) : Outcome α :=
  refuse (.wrongJsonType expected j.typeName)

/-- The text of a string. -/
def asString : Json → Outcome Text
  | string t => .ok t
  | j => j.mismatch "a string"

/-- The bytes of a text without surrogates. -/
def textBytes (t : Text) : Outcome Bytes :=
  match Utf8.encodeText? t with
  | some bs => .ok bs
  | none => refuse .stringNotUnicode

/-- The bytes of a string. -/
def asName (j : Json) : Outcome Bytes := do textBytes (← j.asString)

/-- The number of an integer. -/
def asInteger : Json → Outcome Int
  | int n => .ok n
  | j => j.mismatch "an integer"

/-- The truth value of a boolean. -/
def asBoolean : Json → Outcome Bool
  | bool b => .ok b
  | j => j.mismatch "a boolean"

/-- The symbol with a spelling. -/
def spelledSymbol {α : Type} [Vocabulary α] (t : Text) : Outcome α :=
  match (Vocabulary.ofSpelling? t : Option α) with
  | some s => .ok s
  | none => refuse (.unknownSpelling (Vocabulary.title α) t)

/-- The symbol that a string spells. -/
def asSymbol {α : Type} [Vocabulary α] (j : Json) : Outcome α := do spelledSymbol (← j.asString)

end Json

/-- Gives a fault a position, unless it has one or there is none to give. -/
def Failure.locate (position? : Option Position) : Failure → Failure
  | fault f => fault { f with position := f.position.orElse fun _ => position? }
  | misuse m => misuse m

/-- An operation on the values of a document that keeps the table of positions. -/
abbrev Lowering := StateT Positions Outcome

namespace Lowering

variable {α : Type}

/-- Records where the value at a path starts. -/
def record (path : Path) (d : Document) : Lowering Unit := modify (·.record path d)

/-- The outcome for the value at a path, which may start at a position. Faults that are left without
a position get that of the nearest value. -/
def settle (path : Path) (position? : Option Position) (x : Outcome α) : Lowering α := do
  (← get).place ((below path x).mapError (·.locate position?))

/-- Makes a node of what was lowered at a path. -/
def build (path : Path) (x : Outcome α) : Lowering α := settle path none x

/-- Refuses a value for a cause at a path. -/
def fail (cause : Cause) (path : Path) (d : Document) : Lowering α :=
  settle path d.start? (refuse cause)

/-- What a value without parts says. -/
def scalar (read : Json → Outcome α) (d : Document) (path : Path) : Lowering α :=
  settle path d.start? (read d.value)

/-- The items of an array, each lowered by `lower`. -/
def items (lower : Document → Path → Lowering α) (d : Document) (path : Path) :
    Lowering (List α) := do
  record path d
  match d.items? with
  | none => fail (.wrongJsonType "an array" d.value.typeName) path d
  | some ds =>
    ds.zipIdx.forM fun (item, i) => record (path ++ [.item i]) item
    ds.zipIdx.mapM fun (item, i) => lower item (path ++ [.item i])

end Lowering

/-- An object whose members are to be lowered, with its path. -/
structure Fields where
  owner : Document
  path : Path
  members : List (Text × Document)

namespace Fields

open Lowering (record fail scalar items)

variable {α : Type}

/-- Refuses the first member that is not among the names, if the configuration says so and names are
given. -/
def check (config : Config) (names : List String) (o : Fields) : Lowering Unit :=
  if config.rejectUnknownFields && !names.isEmpty then
    match o.members.find? fun m => !(names.map Text.ofString).contains m.1 with
    | some (k, d) => fail (.unknownField k) (o.path ++ [.field k]) d
    | none => pure ()
  else pure ()

/-- The members of an object that may have the fields with the given names, or any fields if no
names are given. -/
def ofDocument (config : Config) (names : List String) (d : Document) (path : Path) :
    Lowering Fields := do
  record path d
  match d.members? with
  | none => fail (.wrongJsonType "an object" d.value.typeName) path d
  | some members =>
    members.forM fun (k, member) => record (path ++ [.field k]) member
    let o : Fields := { owner := d, path, members }
    o.check config names
    return o

/-- The path of a field. -/
def pathOf (o : Fields) (name : String) : Path := o.path ++ [.field (Text.ofString name)]

/-- The value of a field. -/
def get? (o : Fields) (name : String) : Option Document := o.members.lookup (Text.ofString name)

/-- Lowers the value of a field that has to be there. -/
def required (o : Fields) (name : String) (lower : Document → Path → Lowering α) : Lowering α :=
  match o.get? name with
  | some d => lower d (o.pathOf name)
  | none => fail (.missingField name) (o.pathOf name) o.owner

/-- Lowers the value of a field that may be missing or null. -/
def optional (o : Fields) (name : String) (default : α)
    (lower : Document → Path → Lowering α) : Lowering α :=
  match o.get? name with
  | some d => if d.isNull then pure default else lower d (o.pathOf name)
  | none => pure default

/-- The tag of an object, which has to satisfy `accept`; otherwise it is refused for `cause`. -/
def tag (o : Fields) (accept : NodeTag → Bool) (cause : NodeTag → Cause) : Lowering NodeTag :=
  o.required "type" fun d path => do
    let t ← scalar Json.asSymbol d path
    if accept t then return t else fail (cause t) path d

/-- Checks that an object has a tag. -/
def expectTag (o : Fields) (expected : NodeTag) (cause : NodeTag → Cause) : Lowering Unit := do
  let _ ← o.tag (· == expected) cause

/-- The bytes of a string in a field. -/
def name (o : Fields) (field : String) : Lowering Bytes := o.required field (scalar Json.asName)

/-- The bytes of the strings in a field. -/
def names (o : Fields) (field : String) : Lowering (List Bytes) :=
  o.required field (items (scalar Json.asName))

/-- The integers of the field `children`; none if it is missing. -/
def children (o : Fields) : Lowering (List Int) :=
  o.optional "children" [] (items (scalar Json.asInteger))

end Fields

end Clausal
