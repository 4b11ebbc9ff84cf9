import Clausal.Fault.Outcome

/-!
# Error reports

A report is a fault as it is shown to a user: kind, wording, written path and, where one is known,
a position. Reports are built up on the way out: a position is attached once, and the path is
rooted below ever larger parts.
-/

namespace Clausal

/-- An error as shown to a user. -/
structure Report where
  kind : FaultKind
  message : Text
  path : Text := []
  line : Option Int := none
  column : Option Int := none

namespace Report

/-- The report of a fault found below `base`. -/
def ofFault (base : Text) (f : Fault) : Report where
  kind := f.cause.kind
  message := f.cause.message
  path := f.path.render base
  line := f.position.map fun p => (p.line : Int)
  column := f.position.map fun p => (p.column : Int)

/-- Whether the report has a position. -/
def isLocated (r : Report) : Bool := r.line.isSome

/-- Attaches a position, unless the report has one or no line is given. -/
def locate (r : Report) (line column : Option Int) : Report :=
  if r.line.isNone && line.isSome then { r with line := line, column := column } else r

/-- Roots the path below `base`. -/
def under (r : Report) (base : Text) : Report :=
  if base.isEmpty then r
  else if r.path.isEmpty then { r with path := base }
  else { r with path := joinPath base r.path }

/-- A number of a position, or `None` where it is unknown. -/
def showNumber : Option Int → String
  | some n => toString n
  | none => "None"

/-- The report on one line. -/
def toText (r : Report) : Text :=
  let place : Text :=
    if r.path.isEmpty then [] else Text.ofString " at " ++ r.path
  let position : String :=
    if r.isLocated then
      " (line " ++ showNumber r.line ++ ", column " ++ showNumber r.column ++ ")"
    else ""
  Text.ofString ("[" ++ r.kind.code ++ "] ") ++ r.message ++ place ++ Text.ofString position

end Report

end Clausal
