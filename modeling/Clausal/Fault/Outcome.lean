import Clausal.Fault.Wording
import Clausal.Path
import Clausal.Text.Integer

/-!
# Outcomes

A fault is a cause together with the path of the part at fault and, for parts of a text, their
position. Operations on parts report paths that start at the part; what contains the part puts its
own steps in front. Besides faults an operation can fail for a reason that lies outside documents
and nodes: a malformed setting, a fraction in a canonical text, a number too long to be shown, a
node in a slot of another family, calls that nest too deeply for the host, an argument that has no
items.
-/

namespace Clausal

/-- A cause, the path of the part at fault, and the position of that part if it has one. -/
structure Fault where
  cause : Cause
  path : Path := []
  position : Option Position := none
deriving DecidableEq

/-- A failure that concerns no part of a document or node. -/
inductive Misuse where
  | malformedSetting (name : String) (value : Text)
  | fraction
  | integerTooLong
  | foreignNode
  | callsTooDeep
  | missingPart
  | notIterable (found : String)
deriving DecidableEq

/-- The wording of a misuse. -/
def Misuse.message : Misuse → Text
  | malformedSetting name value =>
    Text.ofString (name ++ " must be an integer, got ") ++ Text.ofChars (quoteText value)
  | fraction => "Floats never occur in the authoring form of a compiled predicate."
  | integerTooLong =>
    Text.ofString ("Exceeds the limit (" ++ toString maxIntegerDigits ++
      " digits) for integer string conversion; " ++
      "use sys.set_int_max_str_digits() to increase the limit")
  | foreignNode => "tuple.index(x): x not in tuple"
  | callsTooDeep => "maximum recursion depth exceeded"
  | missingPart => "list index out of range"
  | notIterable found => Text.ofString ("'" ++ found ++ "' object is not iterable")

/-- Why an operation did not answer. -/
inductive Failure where
  | fault (f : Fault)
  | misuse (m : Misuse)
deriving DecidableEq

/-- The answer of an operation that may fail. -/
abbrev Outcome := Except Failure

/-- Refuses for a cause that lies `path` below the value at hand. -/
def refuse {α : Type} (cause : Cause) (path : Path := []) : Outcome α :=
  .error (.fault ⟨cause, path, none⟩)

/-- Refuses for a cause whose wording shows the integer `n`, which has to be short enough. -/
def refuseShowing {α : Type} (n : Int) (cause : Cause) (path : Path := []) : Outcome α :=
  if n.natAbs < integerLimit then refuse cause path else .error (.misuse .integerTooLong)

/-- The failure as seen from `steps` above. -/
def Failure.under (steps : Path) : Failure → Failure
  | fault f => fault { f with path := steps ++ f.path }
  | misuse m => misuse m

/-- The outcome of an operation on the part `steps` below. -/
def below {α : Type} (steps : Path) (x : Outcome α) : Outcome α := x.mapError (Failure.under steps)

/-- The outcome of an operation on a field. -/
def inField {α : Type} (name : String) (x : Outcome α) : Outcome α :=
  below [.field (Text.ofString name)] x

/-- The outcome of an operation on an item of a list. -/
def inItem {α : Type} (i : Nat) (x : Outcome α) : Outcome α := below [.item i] x

@[simp]
theorem below_eq_ok {α : Type} {steps : Path} {x : Outcome α} {a : α} :
    below steps x = .ok a ↔ x = .ok a := by
  cases x with
  | error e =>
    change Except.error (Failure.under steps e) = _ ↔ _
    simp only [reduceCtorEq]
  | ok b => exact Iff.rfl

@[simp]
theorem inField_eq_ok {α : Type} {name : String} {x : Outcome α} {a : α} :
    inField name x = .ok a ↔ x = .ok a := below_eq_ok

@[simp]
theorem inItem_eq_ok {α : Type} {i : Nat} {x : Outcome α} {a : α} :
    inItem i x = .ok a ↔ x = .ok a := below_eq_ok

/-- Applies an operation to every item of a list, up to the first failure. -/
def forItems {α β : Type} (f : α → Outcome β) (as : List α) : Outcome (List β) :=
  as.zipIdx.mapM fun (a, i) => inItem i (f a)

end Clausal
