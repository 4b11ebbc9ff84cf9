import Clausal.Node.Predicate

/-!
# Nodes

A node is a value of any of the classes of the representation. Struct classes have one shape each;
compiled inputs and predicate calls are families of classes.
-/

namespace Clausal

/-- A node of any class. -/
inductive Node where
  | input (i : Input)
  | call (c : Call)
  | proposition (p : Proposition)
  | placeholder (name : Bytes)
  | contract (c : Contract)
  | constant (c : Constant)
  | predicate (p : Predicate)
deriving DecidableEq

/-- The name of a node's class. -/
def Node.className : Node → String
  | input i => i.tag.name
  | call c => c.tag.name
  | proposition _ => "AtomicProposition"
  | placeholder _ => "Placeholder"
  | contract _ => "Contract"
  | constant _ => "ConstantVariable"
  | predicate _ => "CompiledPredicate"

/-- The tag of a node. Placeholders and constants carry none. -/
def Node.tag? : Node → Option NodeTag
  | input i => some i.tag
  | call c => some c.tag
  | proposition _ => some .atomicProposition
  | contract _ => some .intermediateCompiledPredicate
  | predicate _ => some .compiledPredicate
  | placeholder _ | constant _ => none

end Clausal
