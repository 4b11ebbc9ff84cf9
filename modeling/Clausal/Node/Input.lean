import Clausal.Fault.Outcome

/-!
# Compiled inputs

A compiled input carries no value; it says where an evaluator will find one: a declared constant, a
label, a parameter of the contract at hand, a variable bound by an enclosing quantifier, or all
parameters together. The last three can descend further along a path of selectors.
-/

namespace Clausal

/-- A parameter of the contract at hand, then a descent into it. -/
structure NormalInput where
  index : UInt8
  children : List Int8 := []
deriving DecidableEq

/-- Where an evaluator finds a value. -/
inductive Input where
  | constant (name : Bytes)
  | label (label : Bytes)
  | normal (input : NormalInput)
  | var (placeholder : Bytes) (children : List Int8)
  | self (children : List Int8)
deriving DecidableEq

/-- The tag of an input. -/
def Input.tag : Input → NodeTag
  | constant .. => .constantInput
  | label .. => .labelInput
  | normal .. => .normalInput
  | var .. => .variableInput
  | self .. => .selfInput

/-- The input index with a number. -/
def inputIndex (n : Int) : Outcome UInt8 :=
  if 0 ≤ n ∧ n ≤ 255 then .ok (UInt8.ofNat n.toNat) else refuseShowing n (.indexNotByte n)

/-- The selector with a number. -/
def selector (n : Int) : Outcome Int8 :=
  if -128 ≤ n ∧ n ≤ 127 then .ok (Int8.ofInt n) else refuseShowing n (.selectorOutOfRange n)

/-- The descent path with the given numbers. -/
def selectors (ns : List Int) : Outcome (List Int8) := forItems selector ns

end Clausal
