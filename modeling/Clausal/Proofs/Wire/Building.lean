import Clausal.Proofs.Addresses
import Clausal.Proofs.Node.Arising
import Clausal.Proofs.Wire.Failing
import Clausal.Trace.Noted

/-!
# Nodes built from bytes

The readers of nodes hold values that are parts of nodes by their types. Here the bytes are read by
readers that hand on what they find as arguments of any type, to be checked and converted like
arguments that come from anywhere else. Both answer alike, so no check of the type or the range of
an argument ever fails for an argument that was read, and bytes are refused for what the readers
themselves refuse and for the shapes and names of contracts and predicates only.
-/

namespace Clausal

namespace Reader

variable {α β : Type}

/-- Builds the node of a draft. -/
def build (d : Draft) : Reader Node := ofOutcome d.build

lemma build_eq_pure {d : Draft} {n : Node} (h : d.build = .ok n) : build d = pure n := by
  rw [build, h]
  rfl

/-! ### What is read stays the same under a map -/

lemma field_map (name : String) (f : α → β) (r : Reader α) :
    field name (f <$> r) = f <$> field name r := by
  funext c
  change inField name (r c >>= fun p => pure (f p.1, p.2)) =
    inField name (r c) >>= fun p => pure (f p.1, p.2)
  cases r c <;> rfl

lemma item_map (i : Nat) (f : α → β) (r : Reader α) : item i (f <$> r) = f <$> item i r := by
  funext c
  change inItem i (r c >>= fun p => pure (f p.1, p.2)) =
    inItem i (r c) >>= fun p => pure (f p.1, p.2)
  cases r c <;> rfl

lemma ofOutcome_map (f : α → β) (x : Outcome α) : ofOutcome (f <$> x) = f <$> ofOutcome x := by
  cases x <;> rfl

lemma items_map (f : α → β) (r : Reader α) (i n : Nat) :
    items (f <$> r) i n = List.map f <$> items r i n := by
  induction n generalizing i with
  | zero => rw [items, items, map_pure, List.map_nil]
  | succ n ih => simp only [items, item_map, ih, map_bind, bind_map_left, map_pure, List.map_cons]

lemma sequence_map (f : α → β) (r : Reader α) :
    sequence (f <$> r) = List.map f <$> sequence r := by
  simp only [sequence, map_bind, items_map]
  refine bind_congr fun n => bind_congr fun c => ?_
  split
  · rw [map_bind]
  · rfl

lemma optional_map (f : α → β) (r : Reader α) :
    optional (f <$> r) = Option.map f <$> optional r := by
  simp only [optional, map_bind, bind_map_left]
  refine bind_congr fun isPresent => ?_
  cases isPresent <;> simp

lemma run_map (f : α → β) (r : Reader α) (bs : Bytes) : (f <$> r).run bs = f <$> r.run bs := by
  have happly : (f <$> r) ⟨0, bs⟩ = r ⟨0, bs⟩ >>= fun p => pure (f p.1, p.2) := rfl
  rw [run, run, happly]
  cases r ⟨0, bs⟩ with
  | error e => rfl
  | ok p =>
    change (if p.2.rest.isEmpty then _ else _) = f <$> (if p.2.rest.isEmpty then _ else _)
    split <;> rfl

end Reader

open Node (ofChildren asArgument)
open Reader (field blob build)

/-! ### Readers that hand on what they find -/

/-- Builds a reference to a parameter from what is read. -/
def NormalInput.builder : Reader Node := do
  Reader.tag .normalInput
  let index ← field "inputIndex" Reader.byte
  let children ← Reader.selectors
  build (.normalInput (.int index.toNat) (ofChildren children) none)

/-- Builds a compiled input from what is read behind its variant. -/
def Input.builder : Reader Node := do
  let t ← Reader.variant inputVariants
  match t with
  | .normalInput => NormalInput.builder
  | .constantInput =>
    Reader.tag t
    let name ← field "name" blob
    build (.constantInput (.bytes name) none)
  | .labelInput =>
    Reader.tag t
    let label ← field "label" blob
    build (.labelInput (.bytes label) none)
  | .variableInput =>
    Reader.tag t
    let placeholder ← field "placeholder" blob
    let children ← Reader.selectors
    build (.variableInput (.bytes placeholder) (ofChildren children) none)
  | _ =>
    Reader.tag t
    let children ← Reader.selectors
    build (.selfInput (ofChildren children) none)

/-- Builds a predicate call from what is read behind its variant. -/
def Call.builder : Reader Node := do
  let t ← Reader.variant callVariants
  Reader.tag t
  match t with
  | .atomicPredicateCall =>
    let source ← field "source" blob
    build (.atomicCall (.bytes source) none)
  | .inputPredicateCall =>
    let source ← field "source" NormalInput.builder
    build (.inputCall source.asArgument none)
  | .variablePredicateCall => build (.variableCall none)
  | _ =>
    let source ← field "source" blob
    build (.compiledCall (.bytes source) none)

/-- Builds a proposition from what is read. -/
def Proposition.builder : Reader Node := do
  Reader.tag .atomicProposition
  let call ← field "predicate" Call.builder
  let inputs ← field "inputs" (Reader.sequence Input.builder)
  let isCompiled ← field "isCompiled" (Reader.optional (Reader.flag "bool"))
  build (.proposition call.asArgument (.list (inputs.map asArgument))
    (isCompiled.elim .none .bool) none)

/-- Builds a contract entry from what is read behind its variant. -/
def Entry.builder : Reader Node := do
  let start ← Reader.offset
  let found ← Reader.byte
  if found = 0 then Proposition.builder
  else if found = 1 then
    let name ← blob
    build (.placeholder (.bytes name))
  else Reader.refuse (.unknownEntryVariant found.toNat start)

/-- Builds a contract from what is read. -/
def Contract.builder : Reader Node := do
  Reader.tag .intermediateCompiledPredicate
  let name ← field "name" blob
  let origin ← field "originalPredicateName" blob
  let connective ← field "connective" Reader.symbol
  let inputDefs ← field "inputDefs" (Reader.sequence blob)
  let inputs ← field "inputs" (Reader.sequence Entry.builder)
  let propertyInputs ← field "propertyInputs" (Reader.sequence NormalInput.builder)
  build (.contract (.bytes name) (.bytes origin) (.symbol (.connective connective))
    (.list (inputDefs.map .bytes)) (.list (inputs.map asArgument))
    (.list (propertyInputs.map asArgument)) none)

/-- Builds a declared constant from what is read. -/
def Constant.builder : Reader Node := do
  let kind ← field "varType" Reader.symbol
  let name ← field "name" blob
  build (.constant (.symbol (.kind kind)) (.bytes name))

/-- Builds a compiled predicate from what is read. -/
def Predicate.builder : Reader Node := do
  Reader.tag .compiledPredicate
  let name ← field "name" blob
  let inputDefs ← field "inputDefs" (Reader.sequence blob)
  let contracts ← field "contracts" (Reader.sequence Contract.builder)
  let constants ← field "constants" (Reader.optional (Reader.sequence Constant.builder))
  let entryPoint ← field "entryPoint" blob
  build (.predicate (.bytes name) (.list (inputDefs.map .bytes)) (.list (contracts.map asArgument))
    (constants.elim .none fun cs => .list (cs.map asArgument)) (.bytes entryPoint) none)

/-- The reader of a slot that hands on what it finds. -/
def Slot.builder : Slot → Reader Node
  | predicate => Predicate.builder
  | contract => Contract.builder
  | proposition => Proposition.builder
  | constant => Constant.builder
  | normalInput => NormalInput.builder
  | compiledInput => Input.builder
  | predicateCall => Call.builder

/-! ### What is found is what is wanted -/

namespace Draft

lemma build_normalInput (index : UInt8) (children : List Int8) :
    (normalInput (.int index.toNat) (ofChildren children) none).build =
      .ok (.input (.normal { index, children })) := by
  simp only [build, buildInput, checkTag, Outcome.ok_bind, Node.toInputIndex_toNat,
    Node.childrenField_ofChildren, inField, below]
  rfl

lemma build_variableInput (name : Bytes) (children : List Int8) :
    (variableInput (.bytes name) (ofChildren children) none).build =
      .ok (.input (.var name children)) := by
  simp only [build, buildInput, checkTag, Outcome.ok_bind, Node.childrenField_ofChildren]
  rfl

lemma build_selfInput (children : List Int8) :
    (selfInput (ofChildren children) none).build = .ok (.input (.self children)) := by
  simp only [build, buildInput, checkTag, Outcome.ok_bind, Node.childrenField_ofChildren]
  rfl

lemma convert_map_asArgument {α : Type} {f : Argument → Outcome α} {g : α → Node}
    (h : ∀ x, f (g x).asArgument = .ok x) (xs : List α) :
    convert f (.list ((xs.map g).map asArgument)) = .ok xs := by
  rw [List.map_map]
  exact Node.convert_asArgument h xs

lemma build_proposition (p : Proposition) :
    (proposition (Node.call p.call).asArgument (.list ((p.inputs.map Node.input).map asArgument))
      (p.isCompiled.elim .none .bool) none).build = .ok (.proposition p) := by
  have hinputs : convert Argument.toInput (.list ((p.inputs.map Node.input).map asArgument)) =
      .ok p.inputs := convert_map_asArgument (fun _ => rfl) p.inputs
  have hcompiled : (p.isCompiled.elim Argument.none Argument.bool).toBool? = .ok p.isCompiled := by
    cases p.isCompiled <;> rfl
  simp only [build, checkTag, Outcome.ok_bind, hinputs, hcompiled]
  rfl

/-- The arguments of a contract that are read are all accepted; what is left to check is the
contract. -/
lemma build_contract (c : Contract) :
    (contract (.bytes c.name) (.bytes c.origin) (.symbol (.connective c.connective))
      (.list (c.inputDefs.map .bytes)) (.list ((c.inputs.map Entry.toNode).map asArgument))
      (.list ((c.propertyInputs.map fun i => Node.input (.normal i)).map asArgument)) none).build =
      .contract <$> c.checked := by
  have hinputs : convertEntries (.list ((c.inputs.map Entry.toNode).map asArgument)) =
      .ok c.inputs := by
    rw [List.map_map]
    exact Node.convertEntries_asArgument c.inputs
  have hproperty : convert (Argument.toNormalInput .propertyInputNode)
      (.list ((c.propertyInputs.map fun i => Node.input (.normal i)).map asArgument)) =
        .ok c.propertyInputs := convert_map_asArgument (fun _ => rfl) c.propertyInputs
  simp only [build, buildContract, checkTag, Outcome.ok_bind, hinputs, hproperty,
    Node.toNames_bytes]
  rfl

/-- The names that are compared on the way are compared once more at the end. -/
lemma bind_checked (p : Predicate) :
    (do
      inField "contracts" (distinctNames [] (p.contracts.map Contract.name))
      inField "constants" (distinctNames [] ((p.constants.getD []).map Constant.name))
      p.checked) = p.checked := by
  unfold Predicate.checked
  cases inField "contracts" (distinctNames [] (p.contracts.map Contract.name)) with
  | error e => rfl
  | ok =>
    cases inField "constants" (distinctNames [] ((p.constants.getD []).map Constant.name)) <;> rfl

/-- The arguments of a predicate that are read are all accepted; what is left to check is the
predicate. -/
lemma build_predicate (p : Predicate) :
    (predicate (.bytes p.name) (.list (p.inputDefs.map .bytes))
      (.list ((p.contracts.map Node.contract).map asArgument))
      ((p.constants.map (List.map Node.constant)).elim .none fun cs => .list (cs.map asArgument))
      (.bytes p.entryPoint) none).build = .predicate <$> p.checked := by
  have hcontracts :
      convert Argument.toContract (.list ((p.contracts.map Node.contract).map asArgument)) =
        .ok p.contracts := convert_map_asArgument (fun _ => rfl) p.contracts
  have hconstants : convertConstants ((p.constants.map (List.map Node.constant)).elim .none
      fun cs => .list (cs.map asArgument)) = .ok p.constants := by
    cases p.constants with
    | none => rfl
    | some ks =>
      have hks : convert Argument.toConstant (.list ((ks.map Node.constant).map asArgument)) =
          .ok ks := convert_map_asArgument (fun _ => rfl) ks
      exact Outcome.map_eq_ok.mpr ⟨ks, hks, rfl⟩
  have hchecked : buildPredicate (.bytes p.name) (.list (p.inputDefs.map .bytes))
      (.list ((p.contracts.map Node.contract).map asArgument))
      ((p.constants.map (List.map Node.constant)).elim .none fun cs => .list (cs.map asArgument))
      (.bytes p.entryPoint) = p.checked := by
    -- the names are compared on the way and once more at the end, to the same effect
    simp only [buildPredicate, hcontracts, hconstants, Node.toNames_bytes]
    exact bind_checked p
  simp only [build, checkTag, Outcome.ok_bind, hchecked]

end Draft

lemma NormalInput.builder_eq : builder = (fun i => Node.input (.normal i)) <$> reader := by
  simp only [builder, reader, map_bind, map_pure,
    Reader.build_eq_pure (Draft.build_normalInput _ _)]

lemma Input.builder_eq : builder = Node.input <$> reader := by
  simp only [builder, reader, map_bind]
  refine bind_congr fun t => ?_
  cases t with
  | normalInput =>
    simp only [NormalInput.builder_eq, map_bind, map_pure]
    rfl
  | constantInput | labelInput =>
    simp only [map_bind, map_pure]
    rfl
  | variableInput =>
    simp only [map_bind, map_pure, Reader.build_eq_pure (Draft.build_variableInput _ _)]
  | _ => simp only [map_bind, map_pure, Reader.build_eq_pure (Draft.build_selfInput _)]

lemma Call.builder_eq : builder = Node.call <$> reader := by
  simp only [builder, reader, map_bind]
  refine bind_congr fun t => bind_congr fun _ => ?_
  cases t with
  | inputPredicateCall =>
    simp only [NormalInput.builder_eq, Reader.field_map, bind_map_left, map_bind, map_pure]
    rfl
  | _ =>
    simp only [map_bind, map_pure]
    rfl

lemma Proposition.builder_eq : builder = Node.proposition <$> reader := by
  simp only [builder, reader, Call.builder_eq, Input.builder_eq, Reader.field_map,
    Reader.sequence_map, bind_map_left, map_bind, map_pure]
  refine bind_congr fun _ => bind_congr fun call => bind_congr fun inputs =>
    bind_congr fun isCompiled => ?_
  exact Reader.build_eq_pure (Draft.build_proposition { call, inputs, isCompiled })

lemma Entry.builder_eq : builder = Entry.toNode <$> reader := by
  simp only [builder, reader, Proposition.builder_eq, map_bind]
  refine bind_congr fun start => bind_congr fun found => ?_
  split
  · simp only [map_bind, map_pure]
    rfl
  · split
    · simp only [map_bind, map_pure]
      rfl
    · rfl

lemma Contract.builder_eq : builder = Node.contract <$> reader := by
  simp only [builder, reader, Entry.builder_eq, NormalInput.builder_eq, Reader.field_map,
    Reader.sequence_map, bind_map_left, map_bind]
  refine bind_congr fun _ => bind_congr fun name => bind_congr fun origin =>
    bind_congr fun connective => bind_congr fun inputDefs => bind_congr fun inputs =>
    bind_congr fun propertyInputs => ?_
  rw [← Reader.ofOutcome_map]
  exact congrArg Reader.ofOutcome
    (Draft.build_contract { name, origin, connective, inputDefs, inputs, propertyInputs })

lemma Constant.builder_eq : builder = Node.constant <$> reader := by
  simp only [builder, reader, map_bind, map_pure]
  rfl

lemma Predicate.builder_eq : builder = Node.predicate <$> reader := by
  simp only [builder, reader, Contract.builder_eq, Constant.builder_eq, Reader.field_map,
    Reader.sequence_map, Reader.optional_map, bind_map_left, map_bind]
  refine bind_congr fun _ => bind_congr fun name => bind_congr fun inputDefs =>
    bind_congr fun contracts => bind_congr fun constants => bind_congr fun entryPoint => ?_
  rw [← Reader.ofOutcome_map]
  exact congrArg Reader.ofOutcome
    (Draft.build_predicate { name, inputDefs, contracts, constants, entryPoint })

lemma Slot.builder_eq (s : Slot) : s.builder = s.toNode <$> s.reader := by
  cases s with
  | predicate => exact Predicate.builder_eq
  | contract => exact Contract.builder_eq
  | proposition => exact Proposition.builder_eq
  | constant => exact Constant.builder_eq
  | normalInput => exact NormalInput.builder_eq
  | compiledInput => exact Input.builder_eq
  | predicateCall => exact Call.builder_eq

/-! ### Whatever the bytes -/

/-- The kinds of faults that bytes are refused for. -/
def decodingKinds : List FaultKind :=
  [.truncatedInput, .tagShapeMismatch, .unknownTag, .nonCanonicalEncoding, .trailingBytes,
    .malformedConnectiveArity, .duplicateName, .missingField]

lemma Reader.FailsInKind.run {α : Type} {r : Reader α} (hr : r.FailsInKind) (bs : Bytes) :
    (r.run bs).FailsOnly (Failure.IsOf decodingKinds) := by
  have hkinds : faultKinds ⊆ decodingKinds := by decide
  unfold Reader.run
  cases h : r ⟨0, bs⟩ with
  | error e =>
    rintro _ ⟨rfl⟩
    exact (hr _ e h).mono hkinds
  | ok p =>
    dsimp only
    split
    · exact .ok _
    · exact .refuse ⟨by simp [decodingKinds, Cause.kind], rfl⟩

lemma Node.failsOnly_decode (s : Slot) (bs : Bytes) :
    (decode s bs).FailsOnly (Failure.IsOf decodingKinds) := (s.reader_failsInKind.run bs).map

/-- A predicate that was read fails validation for an address only. -/
lemma Predicate.failsOnly_validate {p : Predicate} (hp : p.WellFormed) :
    p.validate.FailsOnly (Failure.IsOf [.outOfRangeIndex, .unboundPlaceholder]) := by
  intro e he
  obtain ⟨r, -, rfl⟩ := (p.validate_inspects hp).stops e he
  refine ⟨?_, rfl⟩
  rw [r.address.kind_cause]
  cases r.address <;> simp [Address.faultKind]

lemma Predicate.outcome_decodeNoted_eq (bs : Bytes) (validate : Bool) :
    (decodeNoted bs validate).outcome = Slot.predicate.decode bs >>= fun p =>
      if validate then p.validate >>= fun _ => .ok p else .ok p := by
  simp only [decodeNoted, validateNoted, Traced.outcome_bind, Traced.outcome_liftM]
  refine bind_congr fun p => ?_
  cases validate with
  | false => rfl
  | true =>
    simp only [if_true, Traced.outcome_bind, Traced.outcome_liftM, Traced.outcome_note,
      Traced.outcome_pure, bind_assoc]
    rfl

lemma Outcome.FailsOnly.answers {α : Type} {kinds : List FaultKind} {x : Outcome α}
    (hx : x.FailsOnly (Failure.IsOf kinds)) : (∃ a, x = .ok a) ∨
      ∃ f : Fault, x = .error (.fault f) ∧ f.cause.kind ∈ kinds ∧ f.position = none := by
  cases x with
  | ok a => exact .inl ⟨a, rfl⟩
  | error e =>
    cases e with
    | fault f => exact .inr ⟨f, rfl, hx _ rfl⟩
    | misuse m => exact (hx _ rfl).elim

/-- Whatever the bytes and whatever the slot, decoding answers a node or ends in a fault of one of
the decoding kinds without a position. It is no different if everything that is read is handed on as
an argument to be checked, so no check of a type, a range or the target of a call ever fails for
what is read. A predicate that is validated besides can only have an address refused. -/
theorem Slot.decode_answers_or_refuses (bs : Bytes) :
    (∀ s : Slot, s.builder.run bs = Node.decode s bs ∧ ((∃ n, Node.decode s bs = .ok n) ∨
      ∃ f : Fault, Node.decode s bs = .error (.fault f) ∧ f.cause.kind ∈ decodingKinds ∧
        f.position = none)) ∧
    (∀ className s, ofClassName? className = some s →
      Node.decodeClass className bs = Node.decode s bs) ∧
    ∀ validate, (∃ p, (Predicate.decodeNoted bs validate).outcome = .ok p) ∨
      ∃ f : Fault, (Predicate.decodeNoted bs validate).outcome = .error (.fault f) ∧
        f.position = none ∧ (f.cause.kind ∈ decodingKinds ∨
          (validate = true ∧ f.cause.kind ∈ [FaultKind.outOfRangeIndex, .unboundPlaceholder] ∧
            ∃ p, Slot.predicate.decode bs = .ok p ∧ p.validate = .error (.fault f))) := by
  refine ⟨fun s => ⟨?_, (Node.failsOnly_decode s bs).answers⟩, fun className s h => ?_,
    fun validate => ?_⟩
  -- what the constructors check has been checked by the readers
  · rw [s.builder_eq, Reader.run_map]
    rfl
  · rw [Node.decodeClass, h]
  · rw [Predicate.outcome_decodeNoted_eq]
    cases hdecode : Slot.predicate.decode bs with
    | error e =>
      have hfails := Slot.predicate.reader_failsInKind.run bs e hdecode
      cases e with
      | fault f => exact .inr ⟨f, rfl, hfails.2, .inl hfails.1⟩
      | misuse m => exact hfails.elim
    | ok p =>
      have hp : p.WellFormed := (Slot.decode_eq_ok_iff.mp hdecode).1
      -- decoding hands over nothing that validation could not go through
      cases validate with
      | false => exact .inl ⟨p, rfl⟩
      | true =>
        rcases (Predicate.failsOnly_validate hp).answers with ⟨b, hb⟩ | ⟨f, hf, hkind, hposition⟩
        · exact .inl ⟨p, by simp [Outcome.ok_bind, hb]⟩
        · refine .inr ⟨f, ?_, hposition, .inr ⟨rfl, hkind, p, rfl, hf⟩⟩
          simp only [Outcome.ok_bind, if_true, hf]
          rfl

/-- The greatest index and the least selector are read, also as arguments. Where a predicate is
wanted the same bytes are refused. -/
theorem Slot.decode_answers_or_refuses_extremes :
    let bs : Bytes := [10, 255, 4, 128]
    let n : Node := .input (.normal { index := 255, children := [-128] })
    Node.decodeClass "NormalInput" bs = .ok n ∧ normalInput.builder.run bs = .ok n ∧
      ∃ f : Fault, Node.decode predicate bs = .error (.fault f) ∧ f.cause.kind ∈ decodingKinds ∧
        f.position = none := by
  intro bs n
  obtain ⟨hdecode, hclass, -⟩ := decode_answers_or_refuses bs
  have hn : Node.decode normalInput bs = .ok n := rfl
  refine ⟨(hclass "NormalInput" normalInput rfl).trans hn, (hdecode normalInput).1.trans hn, ?_⟩
  rcases (hdecode predicate).2 with ⟨m, hm⟩ | hf
  · cases hm
  · exact hf

end Clausal
