import Clausal.Node
import Clausal.Node.Marks
import Clausal.Text.Quoted

/-!
# How nodes are shown

A node is shown by the name of its class with its fields in their order and the tag, if it has one,
after them. Numbers that were given as symbols are shown as these.
-/

namespace Clausal

/-- A symbol within a value that is shown. -/
def Symbol.shown (s : Symbol) : Text :=
  Text.ofString ("<" ++ s.title ++ "." ++ s.name ++ ": " ++ toString s.index ++ ">")

namespace Text

/-- A string of bytes within a value that is shown. -/
def ofBytes (bs : Bytes) : Text := ofChars (quoteBytes bs)

/-- A sequence of things that are shown. A single one is followed by a comma. -/
def tuple : List Text → Text
  | [t] => "(" ++ t ++ ",)"
  | ts => "(" ++ joinWith ", " ts ++ ")"

end Text

namespace Marks

/-- A number, or the symbol that was given for it. -/
def shownNumber (ms : Marks) (n : Int) : Text :=
  match ms.symbol? [] with
  | some s => s.shown
  | none => Text.ofInt n

/-- A sequence of items, each shown with its marks. -/
def shownItems {α : Type} (f : Marks → α → Text) (ms : Marks) (as : List α) : Text :=
  Text.tuple (as.zipIdx.map fun (a, i) => f (ms.item i) a)

/-- The selectors of a descent path. -/
def shownChildren (ms : Marks) (cs : List Int8) : Text :=
  (ms.field "children").shownItems (fun ms c => ms.shownNumber c.toInt) cs

end Marks

namespace Node

/-- A node whose fields are shown as `fields`. -/
def shownWith (n : Node) (fields : List (String × Text)) : Text :=
  let tag := n.tag?.toList.map fun t => ("tag", (Symbol.tag t).shown)
  let shown := (fields ++ tag).map fun (name, t) => Text.ofString name ++ "=" ++ t
  Text.ofString n.className ++ "(" ++ Text.joinWith ", " shown ++ ")"

end Node

/-- A compiled input as it is shown. -/
def Input.shown (ms : Marks) (i : Input) : Text :=
  (Node.input i).shownWith <| match i with
    | constant name => [("name", .ofBytes name)]
    | label bs => [("label", .ofBytes bs)]
    | normal i =>
      [("input_index", (ms.field "inputIndex").shownNumber i.index.toNat),
        ("children", ms.shownChildren i.children)]
    | var name children =>
      [("placeholder", .ofBytes name), ("children", ms.shownChildren children)]
    | self children => [("children", ms.shownChildren children)]

/-- A predicate call as it is shown. -/
def Call.shown (ms : Marks) (c : Call) : Text :=
  (Node.call c).shownWith <| match c with
    | atomic source | compiled source => [("source", .ofBytes source)]
    | input i => [("source", (Input.normal i).shown (ms.field "source"))]
    | var => []

/-- A proposition as it is shown. -/
def Proposition.shown (ms : Marks) (p : Proposition) : Text :=
  (Node.proposition p).shownWith
    [("predicate", p.call.shown (ms.field "predicate")),
      ("inputs", (ms.field "inputs").shownItems Input.shown p.inputs),
      ("is_compiled", match p.isCompiled with
        | some b => if b then "True" else "False"
        | none => "None")]

/-- An entry as it is shown. -/
def Entry.shown (ms : Marks) : Entry → Text
  | proposition p => p.shown ms
  | placeholder name => (Node.placeholder name).shownWith [("name", .ofBytes name)]

/-- A contract as it is shown. -/
def Contract.shown (ms : Marks) (c : Contract) : Text :=
  (Node.contract c).shownWith
    [("name", .ofBytes c.name), ("original_predicate_name", .ofBytes c.origin),
      ("connective", (Symbol.connective c.connective).shown),
      ("input_defs", Text.tuple (c.inputDefs.map .ofBytes)),
      ("inputs", (ms.field "inputs").shownItems Entry.shown c.inputs),
      ("property_inputs", (ms.field "propertyInputs").shownItems
        (fun ms i => (Input.normal i).shown ms) c.propertyInputs)]

/-- A declared constant as it is shown. -/
def Constant.shown (c : Constant) : Text :=
  (Node.constant c).shownWith [("var_type", (Symbol.kind c.kind).shown), ("name", .ofBytes c.name)]

/-- A predicate as it is shown. -/
def Predicate.shown (ms : Marks) (p : Predicate) : Text :=
  (Node.predicate p).shownWith
    [("name", .ofBytes p.name), ("input_defs", Text.tuple (p.inputDefs.map .ofBytes)),
      ("contracts", (ms.field "contracts").shownItems Contract.shown p.contracts),
      ("constants", match p.constants with
        | some cs => Text.tuple (cs.map Constant.shown)
        | none => "None"),
      ("entry_point", .ofBytes p.entryPoint)]

/-- A node as it is shown. -/
def Node.shown (ms : Marks) : Node → Text
  | input i => i.shown ms
  | call c => c.shown ms
  | proposition p => p.shown ms
  | placeholder name => (Entry.placeholder name).shown ms
  | contract c => c.shown ms
  | constant c => c.shown
  | predicate p => p.shown ms

end Clausal
