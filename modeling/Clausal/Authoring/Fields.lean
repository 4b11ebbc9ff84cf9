import Clausal.Symbol

/-!
# Fields of the authoring form

The fields that each kind of object understands, in the order in which they are written.
-/

namespace Clausal

/-- The fields of a node with a tag. -/
def NodeTag.fields : NodeTag → List String
  | compiledPredicate => ["type", "name", "inputDefs", "contracts", "constants", "entryPoint"]
  | intermediateCompiledPredicate =>
    ["type", "name", "originalPredicateName", "connective", "inputDefs", "inputs",
      "propertyInputs"]
  | atomicProposition => ["type", "predicate", "inputs", "isCompiled"]
  | atomicPredicateCall | inputPredicateCall | compiledPredicateCall => ["type", "source"]
  | variablePredicateCall => ["type"]
  | constantInput => ["type", "name"]
  | labelInput => ["type", "label"]
  | normalInput => ["type", "inputIndex", "children"]
  | variableInput => ["type", "placeholder", "children"]
  | selfInput => ["type", "children"]
  | compiledInput => []

/-- The fields of a declared constant. -/
def constantFields : List String := ["varType", "name"]

end Clausal
