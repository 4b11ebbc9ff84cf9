import Clausal.Proofs.Authoring.Role
import Clausal.Proofs.Node.Drafting
import Clausal.Proofs.Wire.Canonical
import Mathlib.Logic.Relation

/-!
# Where nodes come from

A node is built from arguments, read from bytes or denoted by a document, or it is a part of another
node. Whichever way it arises, it is well formed and so are all nodes within it: its own fields make
a sound draft, from which the same node is built again.
-/

namespace Clausal

/-! ### Parts -/

/-- The node that an entry is. -/
def Entry.toNode : Entry → Node
  | proposition p => .proposition p
  | placeholder name => .placeholder name

namespace Node

/-- The nodes that a node holds in its fields. -/
def parts : Node → List Node
  | call (.input i) => [.input (.normal i)]
  | proposition p => .call p.call :: p.inputs.map .input
  | contract c => c.inputs.map Entry.toNode ++ c.propertyInputs.map fun i => .input (.normal i)
  | predicate p => p.contracts.map .contract ++ (p.constants.getD []).map .constant
  | input _ | call _ | placeholder _ | constant _ => []

/-- The node `m` is `n` or stands at any depth in it. -/
def Within (m n : Node) : Prop := Relation.ReflTransGen (fun m n => m ∈ n.parts) m n

/-- A well-formed node, whatever its class. -/
def WellFormed : Node → Prop
  | contract c => c.WellFormed
  | predicate p => p.WellFormed
  | input _ | call _ | proposition _ | placeholder _ | constant _ => True

variable {m n : Node}

lemma WellFormed.part (h : n.WellFormed) (hm : m ∈ n.parts) : m.WellFormed := by
  cases n with
  | predicate p =>
    simp only [parts, List.mem_append, List.mem_map] at hm
    obtain ⟨c, hc, rfl⟩ | ⟨c, -, rfl⟩ := hm
    · exact h.contracts c hc
    · trivial
  | contract c =>
    simp only [parts, List.mem_append, List.mem_map] at hm
    obtain ⟨e, -, rfl⟩ | ⟨i, -, rfl⟩ := hm
    · cases e <;> trivial
    · trivial
  | proposition p =>
    simp only [parts, List.mem_cons, List.mem_map] at hm
    obtain rfl | ⟨i, -, rfl⟩ := hm <;> trivial
  | call c =>
    cases c with
    | input i =>
      obtain rfl := List.mem_singleton.mp hm
      trivial
    | _ => cases hm
  | input | placeholder | constant => cases hm

lemma WellFormed.within (h : n.WellFormed) (hm : m.Within n) : m.WellFormed := by
  induction hm using Relation.ReflTransGen.head_induction_on with
  | refl => exact h
  | head hm _ ih => exact ih.part hm

/-! ### The draft of a node -/

/-- A node as an argument that was given no symbols for numbers. -/
def asArgument (n : Node) : Argument := .node n []

/-- A descent path as an argument. -/
def ofChildren (cs : List Int8) : Argument := .list (cs.map fun c => .int c.toInt)

/-- The fields of a node as arguments for its class. -/
def toDraft (n : Node) : Draft :=
  let tag := n.tag?.map fun t => Argument.symbol (.tag t)
  match n with
  | input (.constant name) => .constantInput (.bytes name) tag
  | input (.label label) => .labelInput (.bytes label) tag
  | input (.normal i) => .normalInput (.int i.index.toNat) (ofChildren i.children) tag
  | input (.var name children) => .variableInput (.bytes name) (ofChildren children) tag
  | input (.self children) => .selfInput (ofChildren children) tag
  | call (.atomic source) => .atomicCall (.bytes source) tag
  | call (.input i) => .inputCall (input (.normal i)).asArgument tag
  | call .var => .variableCall tag
  | call (.compiled source) => .compiledCall (.bytes source) tag
  | proposition p =>
    .proposition (call p.call).asArgument (.list (p.inputs.map fun i => (input i).asArgument))
      (p.isCompiled.elim .none .bool) tag
  | placeholder name => .placeholder (.bytes name)
  | contract c =>
    .contract (.bytes c.name) (.bytes c.origin) (.symbol (.connective c.connective))
      (.list (c.inputDefs.map .bytes)) (.list (c.inputs.map fun e => e.toNode.asArgument))
      (.list (c.propertyInputs.map fun i => (input (.normal i)).asArgument)) tag
  | constant c => .constant (.symbol (.kind c.kind)) (.bytes c.name)
  | predicate p =>
    .predicate (.bytes p.name) (.list (p.inputDefs.map .bytes))
      (.list (p.contracts.map fun c => (contract c).asArgument))
      (p.constants.elim .none fun cs => .list (cs.map fun c => (constant c).asArgument))
      (.bytes p.entryPoint) tag

/-- A sequence of things that are each converted back. -/
lemma forItems_map {α β : Type} {f : β → Outcome α} {g : α → β} (h : ∀ x, f (g x) = .ok x)
    (xs : List α) : forItems f (xs.map g) = .ok xs := by
  rw [Outcome.forItems_eq_ok, List.forall₂_map_left_iff]
  exact List.forall₂_same.mpr fun x _ => h x

lemma childrenField_ofChildren (cs : List Int8) :
    Draft.childrenField (ofChildren cs) = .ok cs := by
  refine inField_eq_ok.mpr (forItems_map (f := Argument.toSelector) ?_ cs)
  exact fun c => selector_eq_ok.mpr rfl

lemma toInputIndex_toNat (b : UInt8) : (Argument.int b.toNat).toInputIndex = .ok b :=
  inputIndex_eq_ok.mpr rfl

lemma toNames_bytes (ns : List Bytes) : (Argument.list (ns.map .bytes)).toNames = .ok ns :=
  forItems_map (f := Argument.toBytes) (fun _ => rfl) ns

lemma convert_asArgument {α : Type} {f : Argument → Outcome α} {g : α → Node}
    (h : ∀ x, f (g x).asArgument = .ok x) (xs : List α) :
    Draft.convert f (.list (xs.map fun x => (g x).asArgument)) = .ok xs := forItems_map h xs

lemma convertEntries_asArgument (es : List Entry) :
    Draft.convertEntries (.list (es.map fun e => e.toNode.asArgument)) = .ok es := by
  refine Argument.convertEntries_eq_ok.mpr ⟨_, rfl, List.forall₂_map_left_iff.mpr ?_⟩
  refine List.forall₂_same.mpr fun e _ => ?_
  cases e with
  | proposition p => exact .inl ⟨p, [], rfl, rfl⟩
  | placeholder name => exact .inr (.inl ⟨name, [], rfl, rfl⟩)

lemma checkTag_symbol (node : String) (t : NodeTag) :
    Draft.checkTag node t (some (.symbol (.tag t))) = .ok () :=
  Draft.checkTag_eq_ok.mpr fun a ha => by rw [← Option.mem_some_iff.mp ha]; rfl

lemma convertConstants_asArgument (ks : Option (List Constant)) :
    Draft.convertConstants
      (ks.elim .none fun cs => .list (cs.map fun c => (constant c).asArgument)) = .ok ks := by
  cases ks with
  | none => rfl
  | some cs =>
    have hcs := convert_asArgument (f := Argument.toConstant) (g := constant) (fun _ => rfl) cs
    exact Outcome.map_eq_ok.mpr ⟨cs, hcs, rfl⟩

lemma buildContract_toDraft {c : Contract} (h : c.WellFormed) :
    Draft.buildContract (.bytes c.name) (.bytes c.origin) (.symbol (.connective c.connective))
      (.list (c.inputDefs.map .bytes)) (.list (c.inputs.map fun e => e.toNode.asArgument))
      (.list (c.propertyInputs.map fun i => (input (.normal i)).asArgument)) = .ok c := by
  simp only [Draft.buildContract, Outcome.bind_eq_ok, inField_eq_ok, Contract.checked_eq_ok_iff]
  exact ⟨c.name, rfl, c.origin, rfl, c.connective, rfl, c.inputDefs, toNames_bytes _, c.inputs,
    convertEntries_asArgument _, c.propertyInputs,
    convert_asArgument (g := fun i => input (.normal i)) (fun _ => rfl) _, h, rfl⟩

lemma buildPredicate_toDraft {p : Predicate} (h : p.WellFormed) :
    Draft.buildPredicate (.bytes p.name) (.list (p.inputDefs.map .bytes))
      (.list (p.contracts.map fun c => (contract c).asArgument))
      (p.constants.elim .none fun cs => .list (cs.map fun c => (constant c).asArgument))
      (.bytes p.entryPoint) = .ok p := by
  simp only [Draft.buildPredicate, Outcome.bind_eq_ok, inField_eq_ok, distinctNames_eq_ok_iff,
    Predicate.checked_eq_ok_iff]
  exact ⟨p.name, rfl, p.inputDefs, toNames_bytes _, p.contracts,
    convert_asArgument (fun _ => rfl) _, (), ⟨h.contractNames, by simp⟩, p.constants,
    convertConstants_asArgument _, (), ⟨h.constantNames, by simp⟩, p.entryPoint, rfl,
    h.toCoherent, rfl⟩

/-- The fields of a well-formed node make the node again. -/
lemma build_toDraft (h : n.WellFormed) : n.toDraft.build = .ok n := by
  cases n with
  | input i =>
    cases i with
    | constant | label => rfl
    | normal i =>
      exact Outcome.bind_eq_ok.mpr ⟨(), checkTag_symbol _ _, Outcome.map_eq_ok.mpr ⟨.normal i,
        Outcome.bind_eq_ok.mpr ⟨i.index, inField_eq_ok.mpr (toInputIndex_toNat i.index),
          Outcome.bind_eq_ok.mpr ⟨i.children, childrenField_ofChildren i.children, rfl⟩⟩, rfl⟩⟩
    | var name cs =>
      exact Outcome.bind_eq_ok.mpr ⟨(), checkTag_symbol _ _, Outcome.map_eq_ok.mpr ⟨.var name cs,
        Outcome.bind_eq_ok.mpr ⟨name, rfl,
          Outcome.bind_eq_ok.mpr ⟨cs, childrenField_ofChildren cs, rfl⟩⟩, rfl⟩⟩
    | self cs =>
      exact Outcome.bind_eq_ok.mpr ⟨(), checkTag_symbol _ _, Outcome.map_eq_ok.mpr ⟨.self cs,
        Outcome.map_eq_ok.mpr ⟨cs, childrenField_ofChildren cs, rfl⟩, rfl⟩⟩
  | call c => cases c <;> rfl
  | proposition p =>
    have hcompiled :
        (p.isCompiled.elim Argument.none Argument.bool).toBool? = .ok p.isCompiled := by
      cases p.isCompiled <;> rfl
    exact Outcome.bind_eq_ok.mpr ⟨(), checkTag_symbol _ _, Outcome.bind_eq_ok.mpr ⟨p.call, rfl,
      Outcome.bind_eq_ok.mpr ⟨p.inputs,
        inField_eq_ok.mpr (convert_asArgument (fun _ => rfl) p.inputs),
        Outcome.bind_eq_ok.mpr ⟨p.isCompiled, inField_eq_ok.mpr hcompiled, rfl⟩⟩⟩⟩
  | placeholder => rfl
  | contract c =>
    exact Outcome.bind_eq_ok.mpr ⟨(), checkTag_symbol _ _,
      Outcome.map_eq_ok.mpr ⟨c, buildContract_toDraft h, rfl⟩⟩
  | constant => rfl
  | predicate p =>
    exact Outcome.bind_eq_ok.mpr ⟨(), checkTag_symbol _ _,
      Outcome.map_eq_ok.mpr ⟨p, buildPredicate_toDraft h, rfl⟩⟩

end Node

/-! ### Ways to a node -/

/-- A node is an argument or stands in a list of arguments, at any depth. -/
inductive Argument.Contains : Argument → Node → Prop
  | node (n : Node) (marks : Marks) : Contains (.node n marks) n
  | item {as : List Argument} {a : Argument} {n : Node} (ha : a ∈ as) (h : Contains a n) :
      Contains (.list as) n

lemma Argument.Holds.contains {α : Type} {a : Argument} {mk : α → Node} {xs : List α}
    (h : a.Holds mk xs) {x : α} (hx : x ∈ xs) : a.Contains (mk x) := by
  obtain ⟨as, has, hxs⟩ := h
  obtain ⟨b, hb, marks, rfl⟩ := Outcome.exists_mem_of_forall₂ hxs hx
  cases a with
  | list as' =>
    cases has
    exact .item hb (.node _ marks)
  | text t =>
    cases has
    simp at hb
  | bytes bs =>
    cases has
    simp at hb
  | _ => simp [items] at has

/-- The arguments of a draft. -/
def Draft.arguments : Draft → List Argument
  | constantInput a tag | labelInput a tag | selfInput a tag | atomicCall a tag | inputCall a tag
  | compiledCall a tag => a :: tag.toList
  | normalInput a b tag | variableInput a b tag => [a, b] ++ tag.toList
  | variableCall tag => tag.toList
  | proposition a b c tag => [a, b, c] ++ tag.toList
  | placeholder a => [a]
  | contract a b c d e f tag => [a, b, c, d, e, f] ++ tag.toList
  | constant a b => [a, b]
  | predicate a b c d e tag => [a, b, c, d, e] ++ tag.toList

/-- A node can come to exist. The nodes among the arguments of a draft have to exist already; apart
from that the arguments are of any type and have any values. -/
inductive Node.Arises : Node → Prop
  | built {d : Draft} {n : Node} (hargs : ∀ a ∈ d.arguments, ∀ m, a.Contains m → Arises m)
      (h : d.build = .ok n) : Arises n
  | denoted {parser : Parser} {config : Config} {s : Source} {r : Role} {x : r.Value} {n : Node}
      (h : (r.denote parser config s).outcome = .ok x) (hn : (r.toArgument x).toNode? = some n) :
      Arises n
  | decoded {s : Slot} {bs : Bytes} {n : Node} (h : Node.decode s bs = .ok n) : Arises n
  | decodedClass {className : String} {bs : Bytes} {n : Node}
      (h : Node.decodeClass className bs = .ok n) : Arises n
  | decodedPredicate {bs : Bytes} {validate : Bool} {p : Predicate}
      (h : (Predicate.decodeNoted bs validate).outcome = .ok p) : Arises (.predicate p)
  | part {m n : Node} (hn : Arises n) (hm : m ∈ n.parts) : Arises m

namespace Node

variable {m n : Node} {d : Draft}

lemma WellFormed.of_build (h : d.build = .ok n)
    (hargs : ∀ a ∈ d.arguments, ∀ m, a.Contains m → m.WellFormed) : n.WellFormed := by
  cases d with
  | contract name origin connective inputDefs inputs propertyInputs tag =>
    obtain ⟨_, -, h⟩ := Outcome.bind_eq_ok.mp h
    obtain ⟨c, hc, rfl⟩ := Outcome.map_eq_ok.mp h
    simp only [Draft.buildContract, Outcome.bind_eq_ok, Contract.checked_eq_ok_iff] at hc
    obtain ⟨_, -, _, -, _, -, _, -, _, -, _, -, hwf, rfl⟩ := hc
    exact hwf
  -- the contracts of a predicate are among its arguments, so they are well-formed already
  | predicate name inputDefs contracts constants entryPoint tag =>
    obtain ⟨_, -, h⟩ := Outcome.bind_eq_ok.mp h
    obtain ⟨p, hp, rfl⟩ := Outcome.map_eq_ok.mp h
    simp only [Draft.buildPredicate, Outcome.bind_eq_ok, inField_eq_ok,
      Predicate.checked_eq_ok_iff] at hp
    obtain ⟨_, -, _, -, cs, hcs, _, -, _, -, _, -, _, -, hcoherent, rfl⟩ := hp
    have hholds : contracts.Holds contract cs :=
      (Argument.convert_eq_ok_iff_holds fun _ _ => Argument.toContract_eq_ok).mp hcs
    refine ⟨hcoherent, fun c hc => ?_⟩
    exact hargs contracts (by simp [Draft.arguments]) (contract c) (hholds.contains hc)
  | _ =>
    cases n with
    | contract | predicate => simp [Draft.build, Draft.buildInput, Draft.buildCall] at h
    | _ => trivial

lemma WellFormed.of_decode {s : Slot} {bs : Bytes} (h : Node.decode s bs = .ok n) :
    n.WellFormed := by
  obtain ⟨x, hx, rfl⟩ := Outcome.map_eq_ok.mp h
  have hwf := (Slot.decode_eq_ok_iff.mp hx).1
  cases s with
  | predicate | contract => exact hwf
  | proposition | constant | normalInput | compiledInput | predicateCall => trivial

lemma Arises.wellFormed (h : n.Arises) : n.WellFormed := by
  -- on how the node arose: built from arguments, denoted, decoded, or part of another
  induction h with
  | built _ h ih => exact .of_build h ih
  | @denoted parser config s r x n h hn =>
    obtain ⟨d, -, hx, -⟩ := Role.outcome_denote_eq_ok.mp h
    have hwf := Role.wellFormed_of_ofJson hx
    cases r with
    | predicate | contract =>
      cases hn
      exact hwf
    | proposition | call | input | constant =>
      cases hn
      trivial
    | connective => cases hn
  | decoded h => exact .of_decode h
  | @decodedClass className bs n h =>
    unfold decodeClass at h
    split at h
    · exact .of_decode h
    · simp at h
  | @decodedPredicate bs validate p h =>
    simp only [Predicate.decodeNoted, Traced.outcome_bind, Traced.outcome_liftM,
      Outcome.bind_eq_ok] at h
    obtain ⟨p', hp, h⟩ := h
    obtain rfl : p = p' := by
      cases validate with
      | false =>
        simp only [Bool.false_eq_true, if_false, Traced.outcome_bind, Traced.outcome_note,
          Outcome.bind_eq_ok] at h
        obtain ⟨_, -, ⟨rfl⟩⟩ := h
        rfl
      | true =>
        simp only [if_true, Traced.outcome_bind, Traced.outcome_note, Outcome.bind_eq_ok] at h
        obtain ⟨_, -, _, -, ⟨rfl⟩⟩ := h
        rfl
    exact (Slot.decode_eq_ok_iff.mp hp).1
  | part _ hm ih => exact ih.part hm

/-- Every node that can come to exist is sound, and so are all nodes within it: the fields of each
make a sound draft, and the node again. A node can be built exactly from the drafts whose arguments
are type correct and sound, whatever they are. -/
theorem sound_of_arises :
    (∀ n m : Node, n.Arises → m.Within n → m.toDraft.Sound ∧ m.toDraft.build = .ok m) ∧
    ∀ d : Draft, (∃ n, d.build = .ok n) ↔ d.TypeCorrect ∧ d.Sound := by
  refine ⟨fun n m hn hm => ?_, fun d => Draft.exists_build_iff⟩
  have hbuild : m.toDraft.build = .ok m := build_toDraft (hn.wellFormed.within hm)
  exact ⟨(Draft.exists_build_iff.mp ⟨m, hbuild⟩).2, hbuild⟩

theorem sound_of_arises_everyInput :
    (contract Slot.everyInput).Arises ∧
    (input (.normal { index := 0, children := [2] })).Within (contract Slot.everyInput) ∧
    (input (.normal { index := 0, children := [2] })).toDraft.Sound ∧
    (∃ n, (Draft.normalInput (.int 255) (.list [.int (-128)]) none).build = .ok n) ∧
    ¬ ∃ n, (Draft.normalInput (.int 256) (.list []) none).build = .ok n := by
  have hdecode : Slot.contract.decode _ = .ok Slot.everyInput :=
    Slot.decode_eq_ok_iff.mpr ⟨.quantifier rfl _ _ _, rfl⟩
  have harises : (contract Slot.everyInput).Arises :=
    .decoded (s := .contract) (Outcome.map_eq_ok.mpr ⟨Slot.everyInput, hdecode, rfl⟩)
  have hwithin : (input (.normal { index := 0, children := [2] })).Within
      (contract Slot.everyInput) := .single (by decide)
  refine ⟨harises, hwithin, (sound_of_arises.1 _ _ harises hwithin).1, ?_, ?_⟩
  · refine (sound_of_arises.2 _).mpr ⟨⟨trivial, _, rfl, by simp [Argument.IsInt]⟩, nofun, ?_⟩
    exact ⟨⟨255, rfl, by decide, by decide⟩, _, rfl, by simp [Argument.Between, Argument.toInt?]⟩
  · intro h
    obtain ⟨-, -, ⟨n, hn, -, hle⟩, -⟩ := (sound_of_arises.2 _).mp h
    cases hn
    exact absurd hle (by decide)

end Node

end Clausal
