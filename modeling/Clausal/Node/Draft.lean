import Clausal.Node.Argument

/-!
# Drafts of nodes

A draft names a class of nodes and gives an argument of any type for each of its fields. Building
it checks the tag first, then the fields in their order, then what the fields have to satisfy
together, and the first fault counts. As an argument the node is marked with the symbols that the
draft gives for numbers.
-/

namespace Clausal

/-- A node to be built. A missing tag is the one of the class. -/
inductive Draft where
  | constantInput (name : Argument) (tag : Option Argument)
  | labelInput (label : Argument) (tag : Option Argument)
  | normalInput (index children : Argument) (tag : Option Argument)
  | variableInput (placeholder children : Argument) (tag : Option Argument)
  | selfInput (children : Argument) (tag : Option Argument)
  | atomicCall (source : Argument) (tag : Option Argument)
  | inputCall (source : Argument) (tag : Option Argument)
  | variableCall (tag : Option Argument)
  | compiledCall (source : Argument) (tag : Option Argument)
  | proposition (call inputs isCompiled : Argument) (tag : Option Argument)
  | placeholder (name : Argument)
  | contract (name origin connective inputDefs inputs propertyInputs : Argument)
      (tag : Option Argument)
  | constant (kind name : Argument)
  | predicate (name inputDefs contracts constants entryPoint : Argument) (tag : Option Argument)

namespace Draft

/-- Checks that a given tag is the one expected of nodes of the class `node`. -/
def checkTag (node : String) (expected : NodeTag) : Option Argument → Outcome Unit
  | none => .ok ()
  | some a => inField "type" do
    let found ← a.toTag
    if found ≠ expected then refuse (.tagOfNode node found expected)

/-- The items of a sequence, each converted. -/
def convert {α : Type} (f : Argument → Outcome α) (a : Argument) : Outcome (List α) := do
  forItems f (← a.items)

/-- The entries that a sequence stands for. -/
def convertEntries (a : Argument) : Outcome (List Entry) := do
  (← a.items).zipIdx.mapM fun (a, i) => a.toEntry i

/-- The declared constants that an argument stands for, if it is not absent. -/
def convertConstants : Argument → Outcome (Option (List Constant))
  | .none => .ok none
  | a => some <$> convert Argument.toConstant a

/-- The bytes that a field stands for. -/
def bytesField (name : String) (a : Argument) : Outcome Bytes := inField name a.toBytes

/-- The descent path that the field `children` stands for. -/
def childrenField (a : Argument) : Outcome (List Int8) := inField "children" a.toSelectors

/-- Builds a compiled input. -/
def buildInput (tag : NodeTag) (found : Option Argument) (x : Outcome Input) : Outcome Node := do
  checkTag tag.name tag found
  .input <$> x

/-- Builds a predicate call. -/
def buildCall (tag : NodeTag) (found : Option Argument) (x : Outcome Call) : Outcome Node := do
  checkTag tag.name tag found
  .call <$> x

/-- The contract of the arguments. -/
def buildContract (name origin connective inputDefs inputs propertyInputs : Argument) :
    Outcome Contract := do
  let name ← bytesField "name" name
  let origin ← bytesField "originalPredicateName" origin
  let connective ← inField "connective" connective.toConnective
  let inputDefs ← inField "inputDefs" inputDefs.toNames
  let inputs ← convertEntries inputs
  let propertyInputs ← inField "propertyInputs"
    (convert (Argument.toNormalInput .propertyInputNode) propertyInputs)
  Contract.checked { name, origin, connective, inputDefs, inputs, propertyInputs }

/-- The compiled predicate of the arguments. Contract names are compared before the constants are
looked at, and the entry point comes last. -/
def buildPredicate (name inputDefs contracts constants entryPoint : Argument) :
    Outcome Predicate := do
  let name ← bytesField "name" name
  let inputDefs ← inField "inputDefs" inputDefs.toNames
  let contracts ← inField "contracts" (convert Argument.toContract contracts)
  inField "contracts" (distinctNames [] (contracts.map Contract.name))
  let constants ← inField "constants" (convertConstants constants)
  inField "constants" (distinctNames [] ((constants.getD []).map Constant.name))
  let entryPoint ← bytesField "entryPoint" entryPoint
  Predicate.checked { name, inputDefs, contracts, constants, entryPoint }

/-- Builds the node. -/
def build : Draft → Outcome Node
  | constantInput name tag =>
    buildInput .constantInput tag (.constant <$> bytesField "name" name)
  | labelInput label tag => buildInput .labelInput tag (.label <$> bytesField "label" label)
  | normalInput index children tag =>
    buildInput .normalInput tag do
      let index ← inField "inputIndex" index.toInputIndex
      let children ← childrenField children
      return .normal { index, children }
  | variableInput name children tag =>
    buildInput .variableInput tag do
      let name ← bytesField "placeholder" name
      let children ← childrenField children
      return .var name children
  | selfInput children tag => buildInput .selfInput tag (.self <$> childrenField children)
  | atomicCall source tag =>
    buildCall .atomicPredicateCall tag (.atomic <$> bytesField "source" source)
  | inputCall source tag =>
    buildCall .inputPredicateCall tag
      (.input <$> inField "source" (source.toNormalInput .callTargetNode))
  | variableCall tag => buildCall .variablePredicateCall tag (.ok .var)
  | compiledCall source tag =>
    buildCall .compiledPredicateCall tag (.compiled <$> bytesField "source" source)
  | proposition call inputs isCompiled tag => do
    checkTag "AtomicProposition" .atomicProposition tag
    let call ← inField "predicate" call.toCall
    let inputs ← inField "inputs" (convert Argument.toInput inputs)
    let isCompiled ← inField "isCompiled" isCompiled.toBool?
    return .proposition { call, inputs, isCompiled }
  | placeholder name => .placeholder <$> bytesField "name" name
  | contract name origin connective inputDefs inputs propertyInputs tag => do
    checkTag "Contract" .intermediateCompiledPredicate tag
    .contract <$> buildContract name origin connective inputDefs inputs propertyInputs
  | constant kind name => do
    let kind ← inField "varType" kind.toVarKind
    let name ← bytesField "name" name
    return .constant { kind, name }
  | predicate name inputDefs contracts constants entryPoint tag => do
    checkTag "CompiledPredicate" .compiledPredicate tag
    .predicate <$> buildPredicate name inputDefs contracts constants entryPoint

/-- The marks of the argument of a field. -/
def marksOf (name : String) (a : Argument) : Marks := a.marks.under (.field (Text.ofString name))

/-- The symbols that are given for numbers of the node. -/
def marks : Draft → Marks
  | normalInput index children _ => marksOf "inputIndex" index ++ marksOf "children" children
  | variableInput _ children _ => marksOf "children" children
  | selfInput children _ => marksOf "children" children
  | inputCall source _ => marksOf "source" source
  | proposition call inputs _ _ => marksOf "predicate" call ++ marksOf "inputs" inputs
  | contract _ _ _ _ inputs propertyInputs _ =>
    marksOf "inputs" inputs ++ marksOf "propertyInputs" propertyInputs
  | predicate _ _ contracts _ _ _ => marksOf "contracts" contracts
  | _ => []

/-- The node as an argument. -/
def toArgument (d : Draft) : Outcome Argument := do return .node (← d.build) d.marks

end Draft

end Clausal
