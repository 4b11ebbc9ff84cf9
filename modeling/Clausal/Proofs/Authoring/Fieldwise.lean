import Clausal.Proofs.Inspecting
import Clausal.Proofs.Node.Arising

/-!
# Nodes field by field

A node other than a placeholder is written as the object of its fields in their order, each with
what it holds. So the texts of a node are looked at field by field and item by item, and the first
that is not UTF-8 is refused.
-/

namespace Clausal

/-! ### Fields -/

/-- What a field of a node holds. -/
inductive FieldValue where
  | symbol (name : String)
  | number (n : Int)
  | selectors (cs : List Int8)
  | flag (b : Bool)
  | text (bs : Bytes)
  | texts (bss : List Bytes)
  | node (x : Node)
  | nodes (xs : List Node)

/-- What a field holds, as it is written. -/
def FieldValue.toJson : FieldValue → Outcome Json
  | symbol name => .ok (.string (Text.ofString name))
  | number n => .ok (.int n)
  | selectors cs => .ok (childrenField cs).2
  | flag b => .ok (.bool b)
  | text bs => nameJson bs
  | texts bss => itemsJson nameJson bss
  | node x => x.toJson
  | nodes xs => itemsJson Node.toJson xs

/-- The fields of an input behind its tag. -/
def Input.members : Input → List (String × FieldValue)
  | constant name => [("name", .text name)]
  | label text => [("label", .text text)]
  | normal i => [("inputIndex", .number i.index.toNat), ("children", .selectors i.children)]
  | var name children => [("placeholder", .text name), ("children", .selectors children)]
  | self children => [("children", .selectors children)]

/-- The fields of a call behind its tag. -/
def Call.members : Call → List (String × FieldValue)
  | atomic source | compiled source => [("source", .text source)]
  | input source => [("source", .node (.input (.normal source)))]
  | var => []

namespace Node

/-- The fields of a node that is written as an object, with what they hold. -/
def members : Node → List (String × FieldValue)
  | input i => ("type", .symbol i.tag.name) :: i.members
  | call c => ("type", .symbol c.tag.name) :: c.members
  | proposition p => [("type", .symbol NodeTag.atomicProposition.name),
      ("predicate", .node (.call p.call)), ("inputs", .nodes (p.inputs.map .input))] ++
        (p.isCompiled.map fun b => ("isCompiled", .flag b)).toList
  | placeholder _ => []
  | contract c => [("type", .symbol NodeTag.intermediateCompiledPredicate.name),
      ("name", .text c.name), ("originalPredicateName", .text c.origin),
      ("connective", .symbol c.connective.name), ("inputDefs", .texts c.inputDefs),
      ("inputs", .nodes (c.inputs.map Entry.toNode)),
      ("propertyInputs", .nodes (c.propertyInputs.map fun i => .input (.normal i)))]
  | constant c => [("varType", .symbol (Vocabulary.spelling c.kind)), ("name", .text c.name)]
  | predicate p => [("type", .symbol NodeTag.compiledPredicate.name), ("name", .text p.name),
      ("inputDefs", .texts p.inputDefs), ("contracts", .nodes (p.contracts.map .contract))] ++
        (p.constants.map fun cs => ("constants", .nodes (cs.map .constant))).toList ++
          [("entryPoint", .text p.entryPoint)]

lemma ne_placeholder_of_mem {x : Node} {m : String × FieldValue} (hm : m ∈ x.members)
    (bs : Bytes) : x ≠ placeholder bs := by
  rintro rfl
  cases hm

lemma placeholder_or_forall_ne (x : Node) :
    (∃ bs, x = placeholder bs) ∨ ∀ bs, x ≠ placeholder bs := by
  rw [← not_exists]
  exact em _

end Node

@[simp] lemma fieldJson_pure (name : String) (j : Json) :
    fieldJson name (pure j) = pure (Text.ofString name, j) := rfl

lemma itemsJson_map {α β : Type} (f : β → Outcome Json) (g : α → β) (as : List α) :
    itemsJson f (as.map g) = itemsJson (fun a => f (g a)) as := by
  rw [itemsJson, itemsJson, forItems, forItems, List.zipIdx_map, List.mapM_map]
  rfl

lemma itemsJson_ok {α : Type} (f : α → Json) (as : List α) :
    itemsJson (fun a => .ok (f a)) as = .ok (.array (as.map f)) := by
  have hitems : forItems (fun a => .ok (f a)) as = .ok (as.map f) := by
    rw [Outcome.forItems_eq_ok, List.forall₂_map_right_iff]
    exact List.forall₂_same.mpr fun _ _ => rfl
  rw [itemsJson, hitems]
  rfl

lemma itemsJson_toNode (es : List Entry) :
    itemsJson Node.toJson (es.map Entry.toNode) = itemsJson Entry.toJson es := by
  rw [itemsJson_map]
  congr 1
  funext e
  cases e <;> rfl

lemma itemsJson_normal (is : List NormalInput) :
    itemsJson Node.toJson (is.map fun i => .input (.normal i)) =
      .ok (.array (is.map NormalInput.toJson)) := by
  rw [itemsJson_map]
  exact itemsJson_ok NormalInput.toJson is

/-- A node that is no placeholder is written field by field. -/
lemma Node.toJson_eq {x : Node} (hx : ∀ bs, x ≠ .placeholder bs) :
    x.toJson = .object <$> x.members.mapM fun m => fieldJson m.1 m.2.toJson := by
  -- classes differ in their fields alone, which they write one after the other
  cases x with
  | input i =>
    cases i <;> simp [toJson, Input.toJson, NormalInput.toJson, members, Input.members,
      FieldValue.toJson, tagField, childrenField, Input.tag, Outcome.ok_eq_pure]
  | call c =>
    cases c <;> simp [toJson, Call.toJson, members, Call.members, FieldValue.toJson, Input.toJson,
      tagField, Outcome.ok_eq_pure]
  | proposition p =>
    cases hp : p.isCompiled <;>
      simp [toJson, Proposition.toJson, members, FieldValue.toJson, itemsJson_map, tagField,
        Outcome.ok_eq_pure, hp]
  | placeholder bs => exact (hx bs rfl).elim
  | contract c =>
    simp [toJson, Contract.toJson, members, FieldValue.toJson, itemsJson_toNode, itemsJson_normal,
      tagField, Outcome.ok_eq_pure]
  | constant c =>
    simp [toJson, Constant.toJson, members, FieldValue.toJson, Outcome.ok_eq_pure]
  | predicate p =>
    cases hp : p.constants <;>
      simp [toJson, Predicate.toJson, members, FieldValue.toJson, itemsJson_map, tagField,
        Outcome.ok_eq_pure, hp]

/-- The fields that the kind of a node has. -/
def Node.fields : Node → List String
  | constant _ => constantFields
  | x => x.tag?.elim [] NodeTag.fields

namespace Node

lemma members_sublist (x : Node) : (x.members.map Prod.fst).Sublist x.fields := by
  cases x with
  | input i => cases i <;> exact .refl _
  | call c => cases c <;> exact .refl _
  | proposition q =>
    cases h : q.isCompiled <;> simp [members, fields, tag?, NodeTag.fields, h]
  | predicate q =>
    cases h : q.constants <;> simp [members, fields, tag?, NodeTag.fields, h]
  | placeholder | contract | constant => exact .refl _

lemma nodup_fields (x : Node) : x.fields.Nodup := by
  have htag (t : NodeTag) : t.fields.Nodup := by cases t <;> decide
  have hconstant : constantFields.Nodup := by decide
  cases x with
  | input i => exact htag i.tag
  | call c => exact htag c.tag
  | proposition => exact htag .atomicProposition
  | placeholder => exact List.nodup_nil
  | contract => exact htag .intermediateCompiledPredicate
  | constant => exact hconstant
  | predicate => exact htag .compiledPredicate

end Node

/-! ### Texts -/

/-- Bytes that have to be a text, and the path that leads to them. -/
structure TextField where
  path : Path
  bytes : Bytes

namespace TextField

/-- The text as seen from `steps` above. -/
def under (steps : Path) (t : TextField) : TextField := { t with path := steps ++ t.path }

/-- The texts of a field, as seen from the node with the field. -/
def ofField (name : String) (ts : List TextField) : List TextField :=
  ts.map (under [.field (Text.ofString name)])

/-- The texts of one item after the other, as seen from the list of items. -/
def ofItems {α : Type} (f : α → List TextField) (as : List α) : List TextField :=
  as.zipIdx.flatMap fun (a, i) => (f a).map (under [.item i])

/-- The bytes themselves. -/
def whole (bs : Bytes) : List TextField := [⟨[], bs⟩]

/-- Texts are in order if they are UTF-8. -/
def inspection : Inspection TextField where
  InOrder t := Utf8.IsText t.bytes
  failure t := .fault ⟨.fieldNotUtf8, t.path, none⟩
  under := under
  inOrder_under _ _ := Iff.rfl
  failure_under _ _ := rfl

end TextField

open TextField (ofField ofItems whole)

/-- The text of an input, if it has one. -/
def Input.texts : Input → List TextField
  | constant name => ofField "name" (whole name)
  | label text => ofField "label" (whole text)
  | var name _ => ofField "placeholder" (whole name)
  | normal _ | self _ => []

/-- The text of a call, if it has one. -/
def Call.texts : Call → List TextField
  | atomic source | compiled source => ofField "source" (whole source)
  | input _ | var => []

/-- The texts of a proposition, those of the call before those of the inputs. -/
def Proposition.texts (p : Proposition) : List TextField :=
  ofField "predicate" p.call.texts ++ ofField "inputs" (ofItems Input.texts p.inputs)

/-- The texts of an entry. -/
def Entry.texts : Entry → List TextField
  | proposition p => p.texts
  | placeholder name => whole name

/-- The texts of a contract in the order of its fields. -/
def Contract.texts (c : Contract) : List TextField :=
  ofField "name" (whole c.name) ++ (ofField "originalPredicateName" (whole c.origin) ++
    (ofField "inputDefs" (ofItems whole c.inputDefs) ++
      ofField "inputs" (ofItems Entry.texts c.inputs)))

/-- The text of a constant. -/
def Constant.texts (c : Constant) : List TextField := ofField "name" (whole c.name)

/-- The texts of a predicate in the order of its fields. -/
def Predicate.texts (p : Predicate) : List TextField :=
  ofField "name" (whole p.name) ++ (ofField "inputDefs" (ofItems whole p.inputDefs) ++
    (ofField "contracts" (ofItems Contract.texts p.contracts) ++
      (ofField "constants" (ofItems Constant.texts (p.constants.getD [])) ++
        ofField "entryPoint" (whole p.entryPoint))))

/-- The texts of a node. -/
def Node.texts : Node → List TextField
  | input i => i.texts
  | call c => c.texts
  | proposition p => p.texts
  | placeholder name => whole name
  | contract c => c.texts
  | constant c => c.texts
  | predicate p => p.texts

/-- The texts that a field holds. -/
def FieldValue.textFields : FieldValue → List TextField
  | text bs => whole bs
  | texts bss => ofItems whole bss
  | node x => x.texts
  | nodes xs => ofItems Node.texts xs
  | symbol _ | number _ | selectors _ | flag _ => []

namespace TextField

@[simp] lemma ofField_nil (name : String) : ofField name [] = [] := rfl

@[simp] lemma ofItems_nil {α : Type} (f : α → List TextField) : ofItems f [] = [] := rfl

lemma ofItems_map {α β : Type} (f : β → List TextField) (g : α → β) (as : List α) :
    ofItems f (as.map g) = ofItems (fun a => f (g a)) as := by
  rw [ofItems, ofItems, List.zipIdx_map, List.flatMap_map]
  rfl

lemma ofItems_toNode (es : List Entry) :
    ofItems Node.texts (es.map Entry.toNode) = ofItems Entry.texts es := by
  rw [ofItems_map]
  congr 1
  funext e
  cases e <;> rfl

lemma ofItems_normal (is : List NormalInput) :
    ofItems Node.texts (is.map fun i => .input (.normal i)) = [] := by
  rw [ofItems_map]
  simp [ofItems, Node.texts, Input.texts]

end TextField

/-- The texts of a node are those of its fields. -/
lemma Node.texts_eq {x : Node} (hx : ∀ bs, x ≠ .placeholder bs) :
    x.texts = x.members.flatMap fun m => ofField m.1 m.2.textFields := by
  cases x with
  | input i =>
    cases i <;> simp [texts, Input.texts, members, Input.members, FieldValue.textFields]
  | call c =>
    cases c <;> simp [texts, Call.texts, members, Call.members, FieldValue.textFields, Input.texts]
  | proposition p =>
    cases hp : p.isCompiled <;>
      simp [texts, Proposition.texts, members, FieldValue.textFields, TextField.ofItems_map, hp]
  | placeholder bs => exact (hx bs rfl).elim
  | contract c =>
    simp [texts, Contract.texts, members, FieldValue.textFields, TextField.ofItems_toNode,
      TextField.ofItems_normal]
  | constant c => simp [texts, Constant.texts, members, FieldValue.textFields]
  | predicate p =>
    cases hp : p.constants <;>
      simp [texts, Predicate.texts, members, FieldValue.textFields, TextField.ofItems_map, hp]

/-! ### Parts -/

/-- The nodes that a field holds. -/
def FieldValue.parts : FieldValue → List Node
  | node x => [x]
  | nodes xs => xs
  | symbol _ | number _ | selectors _ | flag _ | text _ | texts _ => []

namespace Node

variable {x y : Node} {bs : Bytes}

/-- The parts of a node are those of its fields. -/
lemma parts_eq (x : Node) : x.parts = x.members.flatMap fun m => m.2.parts := by
  cases x with
  | input i => cases i <;> rfl
  | call c => cases c <;> rfl
  | proposition p =>
    cases hp : p.isCompiled <;> simp [parts, members, FieldValue.parts, hp]
  | placeholder bs => rfl
  | contract c => simp [parts, members, FieldValue.parts]
  | constant c => rfl
  | predicate p => cases hp : p.constants <;> simp [parts, members, FieldValue.parts, hp]

lemma mem_parts_of_mem {m : String × FieldValue} (hm : m ∈ x.members) (hy : y ∈ m.2.parts) :
    y ∈ x.parts := parts_eq x ▸ List.mem_flatMap.mpr ⟨m, hm, hy⟩

/-- How many levels of nodes a node of this kind can have below it. -/
def rank : Node → Nat
  | input _ | placeholder _ | constant _ => 0
  | call _ => 1
  | proposition _ => 2
  | contract _ => 3
  | predicate _ => 4

lemma rank_lt_of_mem_parts (h : y ∈ x.parts) : y.rank < x.rank := by
  -- parts are of a class lower in the order of containment
  cases x with
  | call c =>
    cases c with
    | input i =>
      obtain rfl := List.mem_singleton.mp h
      exact Nat.one_pos
    | _ => cases h
  | proposition p =>
    obtain rfl | h := List.mem_cons.mp h
    · exact Nat.one_lt_two
    · obtain ⟨i, -, rfl⟩ := List.mem_map.mp h
      exact Nat.two_pos
  | contract c =>
    rcases List.mem_append.mp h with h | h
    · obtain ⟨e, -, rfl⟩ := List.mem_map.mp h
      cases e <;> simp [Entry.toNode, rank]
    · obtain ⟨i, -, rfl⟩ := List.mem_map.mp h
      exact Nat.succ_pos 2
  | predicate p =>
    rcases List.mem_append.mp h with h | h <;>
    · obtain ⟨c, -, rfl⟩ := List.mem_map.mp h
      simp [rank]
  | _ => cases h

/-- What holds of a node when it holds of its parts holds of all nodes. -/
@[elab_as_elim]
lemma inductionOn {P : Node → Prop} (x : Node) (step : ∀ x, (∀ y ∈ x.parts, P y) → P x) : P x :=
  step x fun y _ => inductionOn y step
termination_by x.rank
decreasing_by exact rank_lt_of_mem_parts ‹_›

end Node

/-! ### Places of nodes -/

/-- The field holds the node at a path. -/
inductive FieldValue.Holds : FieldValue → Path → Node → Prop
  | node (x : Node) : Holds (.node x) [] x
  | item {xs : List Node} {i : Nat} {x : Node} (hi : xs[i]? = some x) :
      Holds (.nodes xs) [.item i] x

/-- The node `y` stands in `x`, at the end of a path. -/
inductive Node.Inside : Node → Path → Node → Prop
  | here (x : Node) : Inside x [] x
  | field {x y z : Node} {m : String × FieldValue} {p q : Path} (hm : m ∈ x.members)
      (hy : m.2.Holds p y) (hz : Inside y q z) :
      Inside x (.field (Text.ofString m.1) :: (p ++ q)) z

lemma FieldValue.mem_parts_iff {v : FieldValue} {y : Node} : y ∈ v.parts ↔ ∃ p, v.Holds p y := by
  constructor
  · intro h
    cases v with
    | node x =>
      obtain rfl := List.mem_singleton.mp h
      exact ⟨_, .node y⟩
    | nodes xs =>
      obtain ⟨i, hi⟩ := List.getElem?_of_mem h
      exact ⟨_, .item hi⟩
    | _ => cases h
  · rintro ⟨p, ⟨x⟩ | hi⟩
    · exact List.mem_singleton.mpr rfl
    · exact List.mem_of_getElem? hi

/-- The nodes within a node are those that stand somewhere in it. -/
lemma Node.within_iff {x y : Node} : y.Within x ↔ ∃ p, x.Inside p y := by
  constructor
  -- upwards: a part of a part is found by the longer path
  · intro h
    induction h with
    | refl => exact ⟨_, .here y⟩
    | tail _ h ih =>
      obtain ⟨p, hy⟩ := ih
      rw [parts_eq, List.mem_flatMap] at h
      obtain ⟨m, hm, h⟩ := h
      obtain ⟨q, hq⟩ := FieldValue.mem_parts_iff.mp h
      exact ⟨_, .field hm hq hy⟩
  -- downwards, along the path
  · rintro ⟨p, h⟩
    induction h with
    | here => exact .refl
    | field hm hy _ ih =>
      exact ih.tail (mem_parts_of_mem hm (FieldValue.mem_parts_iff.mpr ⟨_, hy⟩))

/-! ### Texts at their places -/

/-- The texts that a field holds itself, apart from those of its nodes. -/
def FieldValue.ownTexts : FieldValue → List TextField
  | text bs => whole bs
  | texts bss => ofItems whole bss
  | symbol _ | number _ | selectors _ | flag _ | node _ | nodes _ => []

/-- The texts in the fields of a node, apart from those of the nodes within it. -/
def Node.ownTexts : Node → List TextField
  | placeholder name => whole name
  | x => x.members.flatMap fun m => ofField m.1 m.2.ownTexts

namespace TextField

variable {t : TextField} {name : String}

lemma mem_ofField {ts : List TextField} :
    t ∈ ofField name ts ↔ ∃ u ∈ ts, t = u.under [.field (Text.ofString name)] := by
  simp only [ofField, List.mem_map, eq_comm]

lemma mem_ofItems {α : Type} {f : α → List TextField} {as : List α} :
    t ∈ ofItems f as ↔ ∃ i a, as[i]? = some a ∧ ∃ u ∈ f a, t = u.under [.item i] := by
  simp only [ofItems, List.mem_flatMap, List.mem_map, Prod.exists, List.mem_zipIdx_iff_getElem?,
    eq_comm]
  exact exists_comm

lemma under_under (p q : Path) (t : TextField) : (t.under q).under p = t.under (p ++ q) := by
  simp [under]

end TextField

lemma FieldValue.mem_textFields_iff {v : FieldValue} {t : TextField} :
    t ∈ v.textFields ↔
      t ∈ v.ownTexts ∨ ∃ p y, v.Holds p y ∧ ∃ u ∈ y.texts, t = u.under p := by
  constructor
  · intro h
    cases v with
    | text | texts => exact .inl h
    | node x => exact .inr ⟨[], x, .node x, t, h, rfl⟩
    | nodes xs =>
      obtain ⟨i, x, hi, u, hu, rfl⟩ := TextField.mem_ofItems.mp h
      exact .inr ⟨_, x, .item hi, u, hu, rfl⟩
    | _ => cases h
  · rintro (h | ⟨p, y, ⟨x⟩ | hi, u, hu, rfl⟩)
    · cases v with
      | text | texts => exact h
      | _ => cases h
    · exact hu
    · exact TextField.mem_ofItems.mpr ⟨_, y, hi, u, hu, rfl⟩

namespace Node

variable {x : Node} {t : TextField}

lemma ownTexts_eq (hx : ∀ bs, x ≠ .placeholder bs) :
    x.ownTexts = x.members.flatMap fun m => ofField m.1 m.2.ownTexts := by
  cases x with
  | placeholder bs => exact (hx bs rfl).elim
  | _ => rfl

lemma mem_texts_iff_field (hx : ∀ bs, x ≠ .placeholder bs) :
    t ∈ x.texts ↔ t ∈ x.ownTexts ∨ ∃ m ∈ x.members, ∃ p y, m.2.Holds p y ∧
      ∃ u ∈ y.texts, t = u.under (.field (Text.ofString m.1) :: p) := by
  simp only [texts_eq hx, ownTexts_eq hx, List.mem_flatMap, TextField.mem_ofField,
    FieldValue.mem_textFields_iff]
  constructor
  · rintro ⟨m, hm, u, hu | ⟨p, y, hy, w, hw, rfl⟩, rfl⟩
    · exact .inl ⟨m, hm, u, hu, rfl⟩
    · exact .inr ⟨m, hm, p, y, hy, w, hw, TextField.under_under _ _ _⟩
  · rintro (⟨m, hm, u, hu, rfl⟩ | ⟨m, hm, p, y, hy, w, hw, rfl⟩)
    · exact ⟨m, hm, u, .inl hu, rfl⟩
    · exact ⟨m, hm, _, .inr ⟨p, y, hy, w, hw, rfl⟩, (TextField.under_under [_] p w).symm⟩

/-- The texts of a node are those in the fields of the nodes that stand in it. -/
lemma mem_texts_iff :
    t ∈ x.texts ↔ ∃ p y, x.Inside p y ∧ ∃ u ∈ y.ownTexts, t = u.under p := by
  constructor
  · intro h
    -- on the containment of classes, since a node is no structural part of the list of its members
    induction x using inductionOn generalizing t with
    | step x ih =>
      obtain ⟨bs, rfl⟩ | hx := x.placeholder_or_forall_ne
      · exact ⟨[], _, .here _, t, h, rfl⟩
      · obtain h | ⟨m, hm, p, y, hy, u, hu, rfl⟩ := (mem_texts_iff_field hx).mp h
        -- the text stands in the node itself, or below one of its parts with the shorter path
        · exact ⟨[], x, .here x, t, h, rfl⟩
        · have hpart := mem_parts_of_mem hm (FieldValue.mem_parts_iff.mpr ⟨p, hy⟩)
          obtain ⟨q, z, hz, w, hw, rfl⟩ := ih y hpart hu
          exact ⟨_, z, .field hm hy hz, w, hw, TextField.under_under _ _ _⟩
  · rintro ⟨p, y, h, u, hu, rfl⟩
    induction h with
    | here x =>
      obtain ⟨bs, rfl⟩ | hx := x.placeholder_or_forall_ne
      · exact hu
      · exact (mem_texts_iff_field hx).mpr (.inl hu)
    | @field x y z m p q hm hy _ ih =>
      refine (mem_texts_iff_field (ne_placeholder_of_mem hm)).mpr
        (.inr ⟨m, hm, p, y, hy, _, ih hu, ?_⟩)
      exact (TextField.under_under (_ :: p) q u).symm

/-- The texts of a node have a property if those in the fields of all nodes within it have. -/
lemma forall_mem_texts_iff {P : Bytes → Prop} :
    (∀ t ∈ x.texts, P t.bytes) ↔ ∀ y : Node, y.Within x → ∀ t ∈ y.ownTexts, P t.bytes := by
  constructor
  · intro h y hy t ht
    obtain ⟨p, hp⟩ := within_iff.mp hy
    exact h (t.under p) (mem_texts_iff.mpr ⟨p, y, hp, t, ht, rfl⟩)
  · intro h t ht
    obtain ⟨p, y, hp, u, hu, rfl⟩ := mem_texts_iff.mp ht
    exact h y (within_iff.mpr ⟨p, hp⟩) u hu

end Node

/-! ### Order of texts -/

/-- In a node one path comes before another: where they part it goes to an earlier field, or to an
earlier item of the same field. -/
inductive Node.Precedes : Node → Path → Path → Prop
  | fields {x : Node} {a b : String} {p q : Path} (h : [a, b].Sublist x.fields) :
      Precedes x (.field (Text.ofString a) :: p) (.field (Text.ofString b) :: q)
  | items {x : Node} {name : Text} {i k : Nat} {p q : Path} (h : i < k) :
      Precedes x (.field name :: .item i :: p) (.field name :: .item k :: q)
  | inside {x y : Node} {m : String × FieldValue} {r p q : Path} (hm : m ∈ x.members)
      (hy : m.2.Holds r y) (h : Precedes y p q) :
      Precedes x (.field (Text.ofString m.1) :: (r ++ p)) (.field (Text.ofString m.1) :: (r ++ q))

lemma TextField.pairwise_ofItems {α : Type} {R : TextField → TextField → Prop}
    {f : α → List TextField} {as : List α}
    (hsame : ∀ i a, as[i]? = some a →
      (f a).Pairwise fun t u => R (t.under [.item i]) (u.under [.item i]))
    (hlt : ∀ i k, i < k → ∀ t u : TextField, R (t.under [.item i]) (u.under [.item k])) :
    (ofItems f as).Pairwise R := by
  have hindices : as.zipIdx.Pairwise fun a b => a.2 < b.2 := by
    rw [← List.pairwise_map (f := Prod.snd), List.zipIdx_map_snd]
    exact List.pairwise_lt_range'
  rw [ofItems, List.pairwise_flatMap]
  constructor
  · rintro ⟨a, i⟩ ha
    exact List.pairwise_map.mpr (hsame i a (List.mem_zipIdx_iff_getElem?.mp ha))
  · refine hindices.imp fun {a b} hab t ht u hu => ?_
    obtain ⟨t, -, rfl⟩ := List.mem_map.mp ht
    obtain ⟨u, -, rfl⟩ := List.mem_map.mp hu
    exact hlt a.2 b.2 hab t u

namespace Node

variable {x : Node}

/-- The texts of a field are in order if those of the nodes that it holds are. -/
lemma pairwise_textFields {m : String × FieldValue} (hm : m ∈ x.members)
    (h : ∀ y ∈ m.2.parts, y.texts.Pairwise fun t u => y.Precedes t.path u.path) :
    m.2.textFields.Pairwise fun t u => x.Precedes
      (.field (Text.ofString m.1) :: t.path) (.field (Text.ofString m.1) :: u.path) := by
  obtain ⟨name, v⟩ := m
  cases v with
  | text bs => exact List.pairwise_singleton _ _
  | texts bss =>
    refine TextField.pairwise_ofItems (fun _ _ _ => List.pairwise_singleton _ _) ?_
    exact fun i k hik t u => .items hik
  | node y =>
    exact (h y (List.mem_singleton.mpr rfl)).imp fun hpq => .inside hm (.node y) hpq
  | nodes ys =>
    refine TextField.pairwise_ofItems (fun i y hi => ?_) fun i k hik t u => .items hik
    exact (h y (List.mem_of_getElem? hi)).imp fun hpq => .inside hm (.item hi) hpq
  | _ => exact .nil

/-- The texts of a node are in the order of its fields and items. -/
lemma pairwise_texts (x : Node) : x.texts.Pairwise fun t u => x.Precedes t.path u.path := by
  induction x using inductionOn with
  | step x ih =>
    obtain ⟨bs, rfl⟩ | hx := x.placeholder_or_forall_ne
    · exact List.pairwise_singleton _ _
    -- two texts stand in one member, or in two members in the order of the fields
    · rw [texts_eq hx, List.pairwise_flatMap]
      constructor
      · intro m hm
        rw [ofField, List.pairwise_map]
        exact pairwise_textFields hm fun y hy => ih y (mem_parts_of_mem hm hy)
      · rw [List.pairwise_iff_forall_sublist]
        intro m n hmn t ht u hu
        obtain ⟨t, -, rfl⟩ := TextField.mem_ofField.mp ht
        obtain ⟨u, -, rfl⟩ := TextField.mem_ofField.mp hu
        exact .fields ((hmn.map Prod.fst).trans x.members_sublist)

end Node

end Clausal
