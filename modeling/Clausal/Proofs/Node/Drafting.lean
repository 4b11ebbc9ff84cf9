import Clausal.Node.Draft
import Clausal.Proofs.Node.WellFormed

/-!
# Drafts that can be built

A draft is type correct if every argument is of a type that its field is declared with, and sound if
it keeps to the rules that go beyond types: the tag is that of the class, numbers are in range,
inputs fit their connective, names are distinct. A node can be built from a draft exactly when the
draft is both.
-/

namespace Clausal

/-! ### Arguments -/

namespace Argument

/-- A string of bytes, or a text that has some. -/
def IsName : Argument → Prop
  | bytes _ => True
  | text t => (Utf8.encodeText? t).isSome
  | _ => False

/-- An integer as far as types go: symbols and truth values are integers too. -/
def IsInt : Argument → Prop
  | int _ | symbol _ | bool _ => True
  | _ => False

/-- An integer in a range, ends included. Truth values are none here. -/
def Between (low high : Int) (a : Argument) : Prop := ∃ n, a.toInt? = some n ∧ low ≤ n ∧ n ≤ high

/-- A sequence of arguments that all satisfy `P`. -/
def Each (P : Argument → Prop) (a : Argument) : Prop := ∃ as, a.items = .ok as ∧ ∀ x ∈ as, P x

/-- A node of the class that `mk` makes nodes of. -/
def IsNode {α : Type} (mk : α → Node) (a : Argument) : Prop := ∃ x marks, a = node (mk x) marks

/-- A sequence of nodes of one class. -/
def Holds {α : Type} (mk : α → Node) (a : Argument) (xs : List α) : Prop :=
  ∃ as, a.items = .ok as ∧ List.Forall₂ (fun a x => ∃ marks, a = node (mk x) marks) as xs

/-- A placeholder, or a name that stands for one. -/
def IsPlaceholder : Argument → Prop
  | node (.placeholder _) _ | text _ | bytes _ => True
  | _ => False

/-- An input of a contract: a proposition, a placeholder or a name. -/
def IsEntry (a : Argument) : Prop := a.IsNode .proposition ∨ a.IsNode .placeholder ∨ a.IsName

variable {α : Type} {a : Argument} {P Q : Argument → Prop}

lemma Each.mono (ha : a.Each P) (h : ∀ x, P x → Q x) : a.Each Q := by
  obtain ⟨as, has, hP⟩ := ha
  exact ⟨as, has, fun x hx => h x (hP x hx)⟩

lemma Between.isInt {low high : Int} (h : a.Between low high) : a.IsInt := by
  obtain ⟨n, hn, -⟩ := h
  cases a <;> trivial

lemma exists_toBytes_iff : (∃ bs, a.toBytes = .ok bs) ↔ a.IsName := by
  cases a with
  | text t => cases h : Utf8.encodeText? t <;> simp [toBytes, IsName, h]
  | _ => simp [toBytes, IsName]

lemma exists_toInputIndex_iff : (∃ i, a.toInputIndex = .ok i) ↔ a.Between 0 255 := by
  unfold toInputIndex Between
  cases a.toInt? with
  | none => simp
  | some n => by_cases h : 0 ≤ n ∧ n ≤ 255 <;> simp [inputIndex, h]

lemma exists_toSelector_iff : (∃ c, a.toSelector = .ok c) ↔ a.Between (-128) 127 := by
  unfold toSelector Between
  cases a.toInt? with
  | none => simp
  | some n => by_cases h : -128 ≤ n ∧ n ≤ 127 <;> simp [selector, h]

lemma convert_eq_ok {f : Argument → Outcome α} {xs : List α} : Draft.convert f a = .ok xs ↔
    ∃ as, a.items = .ok as ∧ List.Forall₂ (fun x y => f x = .ok y) as xs := by
  simp only [Draft.convert, Outcome.bind_eq_ok, Outcome.forItems_eq_ok]

lemma exists_convert_iff (a : Argument) {f : Argument → Outcome α}
    (h : ∀ x, (∃ y, f x = .ok y) ↔ P x) :
    (∃ xs, Draft.convert f a = .ok xs) ↔ a.Each P := by
  simp only [Draft.convert, Outcome.bind_eq_ok, Each, ← h]
  constructor
  · rintro ⟨xs, as, has, hxs⟩
    exact ⟨as, has, Outcome.exists_forItems_iff.mp ⟨xs, hxs⟩⟩
  · rintro ⟨as, has, hall⟩
    obtain ⟨xs, hxs⟩ := Outcome.exists_forItems_iff.mpr hall
    exact ⟨xs, as, has, hxs⟩

lemma exists_toSelectors_iff : (∃ cs, a.toSelectors = .ok cs) ↔ a.Each (Between (-128) 127) :=
  a.exists_convert_iff fun _ => exists_toSelector_iff

lemma exists_toNames_iff :
    (∃ ns, a.toNames = .ok ns) ↔ ∃ as, a = list as ∧ ∀ x ∈ as, x.IsName := by
  cases a with
  | list as =>
    simp [toNames, items, Outcome.ok_bind, Outcome.exists_forItems_iff, exists_toBytes_iff]
  | _ => simp [toNames, items]

/-! ### Nodes as arguments -/

lemma toInput_eq_ok {i : Input} : a.toInput = .ok i ↔ ∃ marks, a = node (.input i) marks := by
  unfold toInput
  split <;> simp_all

lemma toCall_eq_ok {c : Call} : a.toCall = .ok c ↔ ∃ marks, a = node (.call c) marks := by
  unfold toCall
  split <;> simp_all

lemma toNormalInput_eq_ok {cause : String → Cause} {i : NormalInput} :
    a.toNormalInput cause = .ok i ↔ ∃ marks, a = node (.input (.normal i)) marks := by
  unfold toNormalInput
  split <;> simp_all

lemma toContract_eq_ok {c : Contract} :
    a.toContract = .ok c ↔ ∃ marks, a = node (.contract c) marks := by
  unfold toContract
  split <;> simp_all

lemma toConstant_eq_ok {c : Constant} :
    a.toConstant = .ok c ↔ ∃ marks, a = node (.constant c) marks := by
  unfold toConstant
  split <;> simp_all

/-- Converting to nodes of one class takes exactly the sequences that hold them. -/
lemma convert_eq_ok_iff_holds {f : Argument → Outcome α} {mk : α → Node} {xs : List α}
    (h : ∀ a x, f a = .ok x ↔ ∃ marks, a = node (mk x) marks) :
    Draft.convert f a = .ok xs ↔ a.Holds mk xs := by
  simp only [convert_eq_ok, Holds, h]

lemma exists_isNode_iff {f : Argument → Outcome α} {mk : α → Node}
    (h : ∀ a x, f a = .ok x ↔ ∃ marks, a = node (mk x) marks) (a : Argument) :
    (∃ x, f a = .ok x) ↔ a.IsNode mk := by
  simp only [h, IsNode]

lemma exists_toNormalInput_iff (cause : String → Cause) (a : Argument) :
    (∃ i, a.toNormalInput cause = .ok i) ↔ a.IsNode fun i => .input (.normal i) :=
  exists_isNode_iff (fun _ _ => toNormalInput_eq_ok) a

lemma Holds.each {mk : α → Node} {xs : List α} (h : a.Holds mk xs) : a.Each (IsNode mk) := by
  obtain ⟨as, has, hxs⟩ := h
  exact ⟨as, has, Outcome.exists_forall₂_iff.mp ⟨xs, hxs⟩⟩

/-- An argument is a certain entry, or the name of a placeholder. -/
def StandsFor (a : Argument) (e : Entry) : Prop :=
  (∃ p marks, a = node (.proposition p) marks ∧ e = .proposition p) ∨
  (∃ name marks, a = node (.placeholder name) marks ∧ e = .placeholder name) ∨
  ∃ name, a.toBytes = .ok name ∧ e = .placeholder name

lemma toEntry_eq_ok {i : Nat} {e : Entry} : a.toEntry i = .ok e ↔ a.StandsFor e := by
  unfold StandsFor
  cases a with
  | text | bytes => simp [toEntry]
  | node n marks =>
    cases n with
    | proposition | placeholder => simpa [toEntry, toBytes] using eq_comm
    | _ => simp [toEntry, toBytes]
  | _ => simp [toEntry, toBytes]

lemma exists_standsFor_iff : (∃ e, a.StandsFor e) ↔ a.IsEntry := by
  simp only [StandsFor, IsEntry, IsNode, ← exists_toBytes_iff]
  constructor
  · rintro ⟨_, ⟨p, marks, h, -⟩ | ⟨name, marks, h, -⟩ | ⟨name, h, -⟩⟩
    · exact .inl ⟨p, marks, h⟩
    · exact .inr (.inl ⟨name, marks, h⟩)
    · exact .inr (.inr ⟨name, h⟩)
  · rintro (⟨p, marks, h⟩ | ⟨name, marks, h⟩ | ⟨name, h⟩)
    · exact ⟨_, .inl ⟨p, marks, h, rfl⟩⟩
    · exact ⟨_, .inr (.inl ⟨name, marks, h, rfl⟩)⟩
    · exact ⟨_, .inr (.inr ⟨name, h, rfl⟩)⟩

lemma convertEntries_eq_ok {es : List Entry} : Draft.convertEntries a = .ok es ↔
    ∃ as, a.items = .ok as ∧ List.Forall₂ StandsFor as es := by
  refine Outcome.bind_eq_ok.trans (exists_congr fun as => and_congr_right fun _ => ?_)
  exact Outcome.mapM_zipIdx_eq_ok (f := fun a i => toEntry i a) fun _ _ _ => toEntry_eq_ok

lemma exists_convertEntries_iff (a : Argument) :
    (∃ es, Draft.convertEntries a = .ok es) ↔ a.Each IsEntry := by
  simp only [convertEntries_eq_ok, Each, ← exists_standsFor_iff, ← Outcome.exists_forall₂_iff]
  exact exists_comm.trans (exists_congr fun _ => exists_and_left)

/-- An argument is a placeholder exactly when the entry that it stands for is one. -/
lemma isPlaceholder_iff {e : Entry} (h : a.StandsFor e) :
    a.IsPlaceholder ↔ ∃ name, e = .placeholder name := by
  obtain ⟨p, marks, rfl, rfl⟩ | ⟨name, marks, rfl, rfl⟩ | ⟨name, hname, rfl⟩ := h
  · simp [IsPlaceholder]
  · simp [IsPlaceholder]
  · cases a <;> simp [toBytes] at hname <;> simp [IsPlaceholder]

end Argument

/-! ### Connectives -/

/-- The arguments that a connective can join, as far as their number goes and which of them have to
be placeholders. -/
def Connective.Takes (as : List Argument) : Connective → Prop
  | .forAll | .thereExists => ∃ x y z, as = [x, y, z] ∧ x.IsPlaceholder ∧ y.IsPlaceholder
  | .not => as.length = 1
  | .and | .or => 2 ≤ as.length

lemma Connective.takes_iff_joins {c : Connective} {as : List Argument} {es : List Entry}
    (h : List.Forall₂ Argument.StandsFor as es) : c.Takes as ↔ c.Joins es := by
  have hlen := h.length_eq
  -- what is asked of the arguments is asked of the entries they stand for, one by one
  constructor
  · intro htakes
    cases c with
    | forAll | thereExists =>
      obtain ⟨x, y, z, rfl, hx, hy⟩ := htakes
      simp only [List.forall₂_cons_left_iff, List.forall₂_nil_left_iff] at h
      obtain ⟨_, _, hx', ⟨_, _, hy', ⟨body, _, -, rfl, rfl⟩, rfl⟩, rfl⟩ := h
      obtain ⟨collection, rfl⟩ := (Argument.isPlaceholder_iff hx').mp hx
      obtain ⟨binder, rfl⟩ := (Argument.isPlaceholder_iff hy').mp hy
      exact .quantifier rfl collection binder body
    | not =>
      obtain ⟨body, rfl⟩ := List.length_eq_one_iff.mp (hlen.symm.trans htakes)
      exact .negation body
    | and | or => exact .junction rfl (hlen ▸ (htakes : 2 ≤ as.length))
  · intro hjoins
    cases hjoins with
    | quantifier hc collection binder body =>
      simp only [List.forall₂_cons_right_iff, List.forall₂_nil_right_iff] at h
      obtain ⟨x, _, hx, ⟨y, _, hy, ⟨z, _, -, rfl, rfl⟩, rfl⟩, rfl⟩ := h
      have htakes : ∃ x' y' z', [x, y, z] = [x', y', z'] ∧ x'.IsPlaceholder ∧ y'.IsPlaceholder :=
        ⟨x, y, z, rfl, (Argument.isPlaceholder_iff hx).mpr ⟨_, rfl⟩,
          (Argument.isPlaceholder_iff hy).mpr ⟨_, rfl⟩⟩
      cases c with
      | forAll | thereExists => exact htakes
      | and | not | or => cases hc
    | negation body => exact hlen
    | junction hc hlen' =>
      cases c with
      | and | or => exact Nat.le_trans hlen' (Nat.le_of_eq hlen.symm)
      | forAll | not | thereExists => cases hc

/-! ### Drafts -/

namespace Draft

/-- The tag that a draft gives. -/
def tag? : Draft → Option Argument
  | constantInput _ tag | labelInput _ tag | normalInput _ _ tag | variableInput _ _ tag
  | selfInput _ tag | atomicCall _ tag | inputCall _ tag | variableCall tag | compiledCall _ tag
  | proposition _ _ _ tag | contract _ _ _ _ _ _ tag | predicate _ _ _ _ _ tag => tag
  | placeholder _ | constant _ _ => none

/-- The tag of the class that a draft names. -/
def classTag? : Draft → Option NodeTag
  | constantInput .. => some .constantInput
  | labelInput .. => some .labelInput
  | normalInput .. => some .normalInput
  | variableInput .. => some .variableInput
  | selfInput .. => some .selfInput
  | atomicCall .. => some .atomicPredicateCall
  | inputCall .. => some .inputPredicateCall
  | variableCall .. => some .variablePredicateCall
  | compiledCall .. => some .compiledPredicateCall
  | proposition .. => some .atomicProposition
  | contract .. => some .intermediateCompiledPredicate
  | predicate .. => some .compiledPredicate
  | placeholder .. | constant .. => none

/-- Every argument is of a type that its field is declared with. -/
def TypeCorrect : Draft → Prop
  | constantInput name _ => name.IsName
  | labelInput label _ => label.IsName
  | normalInput index children _ => index.IsInt ∧ children.Each Argument.IsInt
  | variableInput name children _ => name.IsName ∧ children.Each Argument.IsInt
  | selfInput children _ => children.Each Argument.IsInt
  | atomicCall source _ | compiledCall source _ => source.IsName
  | inputCall source _ => source.IsNode fun i => .input (.normal i)
  | variableCall _ => True
  | proposition call inputs isCompiled _ =>
    call.IsNode .call ∧ inputs.Each (Argument.IsNode .input) ∧
      (isCompiled = .none ∨ ∃ b, isCompiled = .bool b)
  | placeholder name => name.IsName
  | contract name origin connective inputDefs inputs propertyInputs _ =>
    name.IsName ∧ origin.IsName ∧ (∃ c, connective.toConnective = .ok c) ∧
      (∃ as, inputDefs = .list as ∧ ∀ x ∈ as, x.IsName) ∧ inputs.Each Argument.IsEntry ∧
      propertyInputs.Each (Argument.IsNode fun i => .input (.normal i))
  | constant kind name => (∃ k, kind.toVarKind = .ok k) ∧ name.IsName
  | predicate name inputDefs contracts constants entryPoint _ =>
    name.IsName ∧ (∃ as, inputDefs = .list as ∧ ∀ x ∈ as, x.IsName) ∧
      contracts.Each (Argument.IsNode .contract) ∧
      (constants = .none ∨ constants.Each (Argument.IsNode .constant)) ∧ entryPoint.IsName

/-- The fields keep to the rules of the class. -/
def FieldsSound : Draft → Prop
  | normalInput index children _ =>
    index.Between 0 255 ∧ children.Each (Argument.Between (-128) 127)
  | variableInput _ children _ | selfInput children _ => children.Each (Argument.Between (-128) 127)
  | inputCall source _ => source.IsNode fun i => .input (.normal i)
  | contract _ _ connective _ inputs propertyInputs _ =>
    (∃ c as, connective.toConnective = .ok c ∧ inputs.items = .ok as ∧ c.Takes as) ∧
      propertyInputs.Each (Argument.IsNode fun i => .input (.normal i))
  | predicate _ _ contracts constants entryPoint _ =>
    (∃ cs, contracts.Holds .contract cs ∧ (cs.map Contract.name).Nodup) ∧
      (constants = .none ∨ ∃ cs, constants.Holds .constant cs ∧ (cs.map Constant.name).Nodup) ∧
      ∃ bs, entryPoint.toBytes = .ok bs ∧ bs ≠ []
  | constantInput .. | labelInput .. | atomicCall .. | compiledCall .. | variableCall ..
  | proposition .. | placeholder .. | constant .. => True

/-- A draft that keeps to the rules beyond types: its tag is that of its class, and so on. -/
structure Sound (d : Draft) : Prop where
  tag : ∀ a ∈ d.tag?, ∀ t ∈ d.classTag?, a.toTag = .ok t
  fields : d.FieldsSound

variable {d : Draft}

lemma sound_iff : d.Sound ↔ (∀ a ∈ d.tag?, ∀ t ∈ d.classTag?, a.toTag = .ok t) ∧ d.FieldsSound :=
  ⟨fun h => ⟨h.tag, h.fields⟩, fun h => ⟨h.1, h.2⟩⟩

@[simp] lemma checkTag_eq_ok {node : String} {t : NodeTag} {tag : Option Argument} {u : Unit} :
    checkTag node t tag = .ok u ↔ ∀ a ∈ tag, a.toTag = .ok t := by
  cases tag with
  | none => simp [checkTag]
  | some a =>
    simp only [checkTag, inField_eq_ok, Outcome.bind_eq_ok, Option.mem_some_iff, forall_eq']
    constructor
    · rintro ⟨found, hfound, h⟩
      split at h
      · simp at h
      · next heq => rw [hfound, not_not.mp heq]
    · intro h
      exact ⟨t, h, if_neg (not_not.mpr rfl)⟩

/-- What has a tag is built if the tag fits and the rest can be built. -/
lemma exists_tagged_iff {α : Type} {node : String} {t : NodeTag} {tag : Option Argument}
    {x : Outcome α} : (∃ n, (checkTag node t tag >>= fun _ => x) = .ok n) ↔
      (∀ a ∈ tag, a.toTag = .ok t) ∧ ∃ n, x = .ok n := by
  simp

lemma exists_map_iff {α β : Type} {f : α → β} {x : Outcome α} :
    (∃ b, (f <$> x) = .ok b) ↔ ∃ a, x = .ok a := by
  simp

lemma exists_buildInput_iff {t : NodeTag} {tag : Option Argument} {x : Outcome Input} :
    (∃ n, buildInput t tag x = .ok n) ↔ (∀ a ∈ tag, a.toTag = .ok t) ∧ ∃ i, x = .ok i :=
  exists_tagged_iff.trans (and_congr_right' exists_map_iff)

lemma exists_buildCall_iff {t : NodeTag} {tag : Option Argument} {x : Outcome Call} :
    (∃ n, buildCall t tag x = .ok n) ↔ (∀ a ∈ tag, a.toTag = .ok t) ∧ ∃ c, x = .ok c :=
  exists_tagged_iff.trans (and_congr_right' exists_map_iff)

lemma exists_toBool_iff {a : Argument} :
    (∃ b, a.toBool? = .ok b) ↔ a = .none ∨ ∃ b, a = .bool b := by
  cases a <;> simp [Argument.toBool?]

lemma convertConstants_eq_ok {a : Argument} {o : Option (List Constant)} :
    convertConstants a = .ok o ↔
      a = .none ∧ o = none ∨ ∃ cs, a.Holds .constant cs ∧ o = some cs := by
  have hconvert (a : Argument) (cs : List Constant) :
      convert Argument.toConstant a = .ok cs ↔ a.Holds .constant cs :=
    a.convert_eq_ok_iff_holds fun _ _ => Argument.toConstant_eq_ok
  cases a with
  | none => simpa [convertConstants, Argument.Holds, Argument.items] using eq_comm
  | _ => simp [convertConstants, hconvert]

lemma exists_buildContract_iff
    {name origin connective inputDefs inputs propertyInputs : Argument} {tag : Option Argument} :
    (∃ c, buildContract name origin connective inputDefs inputs propertyInputs = .ok c) ↔
      (contract name origin connective inputDefs inputs propertyInputs tag).TypeCorrect ∧
      (contract name origin connective inputDefs inputs propertyInputs tag).FieldsSound := by
  have hprops (a : Argument) :=
    a.exists_convert_iff (Argument.exists_toNormalInput_iff .propertyInputNode)
  simp only [buildContract, bytesField, Outcome.bind_eq_ok, inField_eq_ok,
    Contract.checked_eq_ok_iff, TypeCorrect, FieldsSound]
  constructor
  · rintro ⟨_, n, hn, o, ho, c, hc, defs, hdefs, es, hes, ps, hps, hwf, -⟩
    obtain ⟨as, has, hes'⟩ := Argument.convertEntries_eq_ok.mp hes
    exact ⟨⟨Argument.exists_toBytes_iff.mp ⟨n, hn⟩, Argument.exists_toBytes_iff.mp ⟨o, ho⟩, ⟨c, hc⟩,
      Argument.exists_toNames_iff.mp ⟨defs, hdefs⟩,
      (Argument.exists_convertEntries_iff _).mp ⟨es, hes⟩, (hprops _).mp ⟨ps, hps⟩⟩,
      ⟨c, as, hc, has, (Connective.takes_iff_joins hes').mpr hwf⟩,
      (hprops _).mp ⟨ps, hps⟩⟩
  · rintro ⟨⟨hname, horigin, -, hdefs, hinputs, -⟩, ⟨c, as, hc, has, htakes⟩, hprops'⟩
    obtain ⟨n, hn⟩ := Argument.exists_toBytes_iff.mpr hname
    obtain ⟨o, ho⟩ := Argument.exists_toBytes_iff.mpr horigin
    obtain ⟨defs, hdefs⟩ := Argument.exists_toNames_iff.mpr hdefs
    obtain ⟨es, hes⟩ := (Argument.exists_convertEntries_iff _).mpr hinputs
    obtain ⟨ps, hps⟩ := (hprops _).mpr hprops'
    obtain ⟨as', has', hes'⟩ := Argument.convertEntries_eq_ok.mp hes
    obtain rfl : as = as' := Except.ok.inj (has.symm.trans has')
    exact ⟨_, n, hn, o, ho, c, hc, defs, hdefs, es, hes, ps, hps,
      (Connective.takes_iff_joins hes').mp htakes, rfl⟩

lemma exists_buildPredicate_iff {name inputDefs contracts constants entryPoint : Argument}
    {tag : Option Argument} :
    (∃ p, buildPredicate name inputDefs contracts constants entryPoint = .ok p) ↔
      (predicate name inputDefs contracts constants entryPoint tag).TypeCorrect ∧
      (predicate name inputDefs contracts constants entryPoint tag).FieldsSound := by
  have hconvert (a : Argument) (cs : List Contract) :
      convert Argument.toContract a = .ok cs ↔ a.Holds .contract cs :=
    a.convert_eq_ok_iff_holds fun _ _ => Argument.toContract_eq_ok
  simp only [buildPredicate, bytesField, Outcome.bind_eq_ok, inField_eq_ok, hconvert,
    convertConstants_eq_ok, distinctNames_eq_ok_iff, Predicate.checked_eq_ok_iff, TypeCorrect,
    FieldsSound]
  -- field by field; the names are distinct in what was converted, not in the arguments
  constructor
  · rintro ⟨_, n, hn, defs, hdefs, cs, hcs, _, ⟨hnames, -⟩, ks, hks, _, ⟨hnames', -⟩, e, he, hp, -⟩
    refine ⟨⟨Argument.exists_toBytes_iff.mp ⟨n, hn⟩, Argument.exists_toNames_iff.mp ⟨defs, hdefs⟩,
      hcs.each, ?_, Argument.exists_toBytes_iff.mp ⟨e, he⟩⟩, ⟨cs, hcs, hnames⟩, ?_,
      e, he, hp.entryPoint⟩
    · obtain ⟨h, -⟩ | ⟨ks, hks, -⟩ := hks
      · exact .inl h
      · exact .inr hks.each
    · obtain ⟨h, -⟩ | ⟨ks, hks, rfl⟩ := hks
      · exact .inl h
      · exact .inr ⟨ks, hks, hnames'⟩
  · rintro ⟨⟨hname, hdefs, -, -, -⟩, ⟨cs, hcs, hnames⟩, hks, e, he, hne⟩
    obtain ⟨n, hn⟩ := Argument.exists_toBytes_iff.mpr hname
    obtain ⟨defs, hdefs⟩ := Argument.exists_toNames_iff.mpr hdefs
    obtain ⟨ks, hks, hnames'⟩ : ∃ ks : Option (List Constant),
        (constants = .none ∧ ks = none ∨ ∃ cs, constants.Holds .constant cs ∧ ks = some cs) ∧
          ((ks.getD []).map Constant.name).Nodup := by
      obtain h | ⟨ks, hks, hnames'⟩ := hks
      · exact ⟨none, .inl ⟨h, rfl⟩, List.nodup_nil⟩
      · exact ⟨some ks, .inr ⟨ks, hks, rfl⟩, hnames'⟩
    exact ⟨_, n, hn, defs, hdefs, cs, hcs, (), ⟨hnames, by simp⟩, ks, hks, (), ⟨hnames', by simp⟩,
      e, he, ⟨hnames, hnames', hne⟩, rfl⟩

/-- A node can be built exactly from the drafts that are type correct and sound. -/
lemma exists_build_iff : (∃ n, d.build = .ok n) ↔ d.TypeCorrect ∧ d.Sound := by
  have hselectors {a : Argument} (h : a.Each (Argument.Between (-128) 127)) :
      a.Each Argument.IsInt := h.mono fun _ => Argument.Between.isInt
  rw [sound_iff, and_left_comm]
  -- the tag comes first for every class that has one, so only the fields tell the classes apart
  cases d with
  | constantInput name tag | labelInput name tag =>
    refine exists_buildInput_iff.trans (and_congr (by simp [tag?, classTag?]) ?_)
    simp [TypeCorrect, FieldsSound, bytesField, Argument.exists_toBytes_iff]
  | normalInput index children tag =>
    refine exists_buildInput_iff.trans (and_congr (by simp [tag?, classTag?]) ?_)
    simp only [TypeCorrect, FieldsSound, childrenField, Outcome.bind_eq_ok, inField_eq_ok,
      Outcome.pure_eq_ok]
    constructor
    · rintro ⟨_, i, hi, cs, hcs, rfl⟩
      have hindex := Argument.exists_toInputIndex_iff.mp ⟨i, hi⟩
      have hchildren := Argument.exists_toSelectors_iff.mp ⟨cs, hcs⟩
      exact ⟨⟨hindex.isInt, hselectors hchildren⟩, hindex, hchildren⟩
    · rintro ⟨-, hindex, hchildren⟩
      obtain ⟨i, hi⟩ := Argument.exists_toInputIndex_iff.mpr hindex
      obtain ⟨cs, hcs⟩ := Argument.exists_toSelectors_iff.mpr hchildren
      exact ⟨_, i, hi, cs, hcs, rfl⟩
  | variableInput name children tag =>
    refine exists_buildInput_iff.trans (and_congr (by simp [tag?, classTag?]) ?_)
    simp only [TypeCorrect, FieldsSound, bytesField, childrenField, Outcome.bind_eq_ok,
      inField_eq_ok, Outcome.pure_eq_ok]
    constructor
    · rintro ⟨_, n, hn, cs, hcs, rfl⟩
      have hchildren := Argument.exists_toSelectors_iff.mp ⟨cs, hcs⟩
      exact ⟨⟨Argument.exists_toBytes_iff.mp ⟨n, hn⟩, hselectors hchildren⟩, hchildren⟩
    · rintro ⟨⟨hname, -⟩, hchildren⟩
      obtain ⟨n, hn⟩ := Argument.exists_toBytes_iff.mpr hname
      obtain ⟨cs, hcs⟩ := Argument.exists_toSelectors_iff.mpr hchildren
      exact ⟨_, n, hn, cs, hcs, rfl⟩
  | selfInput children tag =>
    refine exists_buildInput_iff.trans (and_congr (by simp [tag?, classTag?]) ?_)
    simp only [TypeCorrect, FieldsSound, childrenField, Outcome.map_eq_ok, inField_eq_ok]
    constructor
    · rintro ⟨_, cs, hcs, rfl⟩
      have hchildren := Argument.exists_toSelectors_iff.mp ⟨cs, hcs⟩
      exact ⟨hselectors hchildren, hchildren⟩
    · rintro ⟨-, hchildren⟩
      obtain ⟨cs, hcs⟩ := Argument.exists_toSelectors_iff.mpr hchildren
      exact ⟨_, cs, hcs, rfl⟩
  | atomicCall source tag | compiledCall source tag =>
    refine exists_buildCall_iff.trans (and_congr (by simp [tag?, classTag?]) ?_)
    simp [TypeCorrect, FieldsSound, bytesField, Argument.exists_toBytes_iff]
  | inputCall source tag =>
    refine exists_buildCall_iff.trans (and_congr (by simp [tag?, classTag?]) ?_)
    simp [TypeCorrect, FieldsSound, Argument.exists_toNormalInput_iff]
  | variableCall tag =>
    refine exists_buildCall_iff.trans (and_congr (by simp [tag?, classTag?]) ?_)
    simp [TypeCorrect, FieldsSound]
  | proposition call inputs isCompiled tag =>
    have hcall := call.exists_isNode_iff fun _ _ => Argument.toCall_eq_ok
    have hinputs := inputs.exists_convert_iff
      (Argument.exists_isNode_iff fun _ _ => Argument.toInput_eq_ok)
    refine exists_tagged_iff.trans (and_congr (by simp [tag?, classTag?]) ?_)
    simp [TypeCorrect, FieldsSound, hcall, hinputs, exists_toBool_iff]
  | placeholder name =>
    simp [build, tag?, TypeCorrect, FieldsSound, bytesField, Argument.exists_toBytes_iff]
  | contract name origin connective inputDefs inputs propertyInputs tag =>
    refine exists_tagged_iff.trans (and_congr (by simp [tag?, classTag?]) ?_)
    exact exists_map_iff.trans exists_buildContract_iff
  | constant kind name =>
    simp [build, tag?, TypeCorrect, FieldsSound, bytesField, Argument.exists_toBytes_iff]
  | predicate name inputDefs contracts constants entryPoint tag =>
    refine exists_tagged_iff.trans (and_congr (by simp [tag?, classTag?]) ?_)
    exact exists_map_iff.trans exists_buildPredicate_iff

end Draft

end Clausal
