import Clausal.Proofs.Enclosure.Reachability
import Clausal.Proofs.Refusing
import Clausal.Validation

/-!
# Legal predicates

A predicate is legal when no reference to a parameter leads past the parameters of its owner and
every variable is bound where it is used. Validation accepts the legal predicates and no others,
and reports what their contracts see and bind.
-/

namespace Clausal

variable {arity : Nat} {scope : List Bytes}

/-! ### References -/

/-- The reference stays within a number of parameters. -/
def NormalInput.Within (arity : Nat) (i : NormalInput) : Prop := i.index.toNat < arity

lemma NormalInput.validate_eq_ok_iff {i : NormalInput} {u : Unit} :
    i.validate arity = .ok u ↔ i.Within arity := by
  unfold validate Within
  split <;> simp [*]

lemma checkVisible_eq_ok_iff {name : Bytes} {u : Unit} :
    checkVisible scope name = .ok u ↔ name ∈ scope := by
  unfold checkVisible
  split <;> simp_all

/-! ### Propositions -/

/-- The addresses of a proposition are legal in a contract with `arity` parameters whose bodies see
the variables `visible`. -/
structure Proposition.Legal (arity : Nat) (visible : Bytes → Prop) (q : Proposition) : Prop where
  source : ∀ i, q.call = .input i → i.Within arity
  normal : ∀ i, .normal i ∈ q.inputs → i.Within arity
  var : ∀ v cs, .var v cs ∈ q.inputs → visible v

/-- What is legal stays legal where more is visible. -/
lemma Proposition.Legal.mono {visible visible' : Bytes → Prop} {q : Proposition}
    (hq : q.Legal arity visible) (h : ∀ v, visible v → visible' v) : q.Legal arity visible' where
  source := hq.source
  normal := hq.normal
  var := fun v cs hv => h v (hq.var v cs hv)

lemma Call.validate_eq_ok_iff {c : Call} {u : Unit} :
    c.validate arity = .ok u ↔ ∀ i, c = .input i → i.Within arity := by
  cases c with
  | input source => simp [validate, NormalInput.validate_eq_ok_iff]
  | atomic | compiled | var => simp [validate]

lemma Input.validate_eq_ok_iff {i : Input} {u : Unit} :
    i.validate arity scope = .ok u ↔
      (∀ n, i = .normal n → n.Within arity) ∧ ∀ v cs, i = .var v cs → v ∈ scope := by
  cases i with
  | normal n => simp [validate, NormalInput.validate_eq_ok_iff]
  | var v cs => simp [validate, checkVisible_eq_ok_iff]
  | constant | label | self => simp [validate]

lemma Proposition.validate_eq_ok_iff {q : Proposition} {u : Unit} :
    q.validate arity scope = .ok u ↔ q.Legal arity (· ∈ scope) := by
  have hinputs : (∃ us, forItems (Input.validate arity scope) q.inputs = .ok us) ↔
      ∀ i ∈ q.inputs,
        (∀ n, i = .normal n → n.Within arity) ∧ ∀ v cs, i = .var v cs → v ∈ scope := by
    simp only [Outcome.exists_forItems_iff, Input.validate_eq_ok_iff, exists_const]
  have hvalidate : q.validate arity scope = .ok u ↔ (∃ u, q.call.validate arity = .ok u) ∧
      ∃ us, forItems (Input.validate arity scope) q.inputs = .ok us := by
    simp [validate]
  rw [hvalidate, hinputs]
  simp only [Call.validate_eq_ok_iff, exists_const]
  constructor
  · rintro ⟨hcall, hq⟩
    exact ⟨hcall, fun i hi => (hq _ hi).1 i rfl, fun v cs hv => (hq _ hv).2 v cs rfl⟩
  · intro h
    refine ⟨h.source, fun i hi => ⟨?_, ?_⟩⟩
    · rintro n rfl
      exact h.normal n hi
    · rintro v cs rfl
      exact h.var v cs hi

/-! ### Contracts -/

namespace Contract

variable {c : Contract} {inherited scope : List Bytes} {v : Bytes}

lemma mem_bodyScope_iff : v ∈ c.bodyScope inherited ↔ v ∈ inherited ∨ c.Binds v := by
  rw [bodyScope, Scopes.mem_union, Option.mem_toList, boundVariable?_eq_some_iff]

/-- Propositions among the inputs of a well-formed contract are bodies: quantifiers have names in
their other slots. -/
lemma WellFormed.exists_isBody_iff (hc : c.WellFormed) {q : Proposition} :
    (∃ i, c.IsBody i (.proposition q)) ↔ .proposition q ∈ c.inputs := by
  constructor
  · rintro ⟨i, hi, -⟩
    exact List.mem_of_getElem? hi
  · intro hq
    obtain ⟨i, hi⟩ := List.getElem?_of_mem hq
    refine ⟨i, hi, fun hquantifier => ?_⟩
    -- for quantifiers the slots are taken one by one: the first two hold names, so the proposition
    -- is the third
    unfold WellFormed at hc
    generalize c.connective = k, c.inputs = es at hc hi hquantifier
    cases hc with
    | quantifier _ collection binder body =>
      match i with
      | 0 | 1 => simp at hi
      | 2 => rfl
      | i + 3 => simp at hi
    | negation => cases hquantifier
    | junction hjunction =>
      exact absurd hquantifier (Connective.not_isQuantifier_of_isJunction hjunction)

/-- Of the well-formed contracts the quantifiers bind a variable. -/
lemma WellFormed.isSome_boundVariable?_iff (hc : c.WellFormed) :
    c.boundVariable?.isSome ↔ c.connective.isQuantifier := by
  unfold WellFormed at hc
  unfold boundVariable?
  generalize c.connective = k, c.inputs = es at hc ⊢
  cases hc with
  | quantifier hquantifier => simp [hquantifier]
  | negation => rfl
  | junction hjunction => simp [Connective.not_isQuantifier_of_isJunction hjunction]

/-- The addresses of a contract are legal for the parameters of its owner, if its bodies see the
variables `visible`. -/
structure Legal (ownerArity : Nat) (visible : Bytes → Prop) (c : Contract) : Prop where
  propositions : ∀ q, .proposition q ∈ c.inputs → q.Legal c.inputDefs.length visible
  propertyInputs : ∀ i ∈ c.propertyInputs, i.Within ownerArity

lemma validate_eq_ok_iff (hc : c.WellFormed) {defs : List Bytes} :
    c.validate inherited (some defs) = .ok scope ↔
      c.Legal defs.length (· ∈ c.bodyScope inherited) ∧ scope = c.bodyScope inherited := by
  have hbodies : (∀ i e, c.IsBody i e →
      e.validate c.inputDefs.length (c.bodyScope inherited) = .ok ()) ↔
        ∀ q, .proposition q ∈ c.inputs →
          q.Legal c.inputDefs.length (· ∈ c.bodyScope inherited) := by
    -- placeholders among the bodies are not validated; the propositions are
    simp only [← hc.exists_isBody_iff]
    constructor
    · rintro h q ⟨i, hi⟩
      exact Proposition.validate_eq_ok_iff.mp (h i _ hi)
    · rintro h i (q | name) hi
      · exact Proposition.validate_eq_ok_iff.mpr (h q ⟨i, hi⟩)
      · rfl
  have hproperties : (∃ us, forItems (NormalInput.validate defs.length) c.propertyInputs = .ok us) ↔
      ∀ i ∈ c.propertyInputs, i.Within defs.length := by
    simp only [Outcome.exists_forItems_iff, NormalInput.validate_eq_ok_iff, exists_const]
  simp only [validate, Outcome.bind_eq_ok, inField_eq_ok, Outcome.forM_eq_ok, inItem_eq_ok,
    Prod.forall, mem_bodies_iff, hbodies, Outcome.pure_eq_ok]
  constructor
  · rintro ⟨_, hpropositions, us, hus, rfl⟩
    exact ⟨⟨hpropositions, hproperties.mp ⟨us, hus⟩⟩, rfl⟩
  · rintro ⟨h, rfl⟩
    obtain ⟨us, hus⟩ := hproperties.mpr h.propertyInputs
    exact ⟨(), h.propositions, us, hus, rfl⟩

lemma Legal.mono {ownerArity : Nat} {visible visible' : Bytes → Prop}
    (hc : c.Legal ownerArity visible) (h : ∀ v, visible v → visible' v) :
    c.Legal ownerArity visible' where
  propositions := fun q hq => (hc.propositions q hq).mono h
  propertyInputs := hc.propertyInputs

lemma Legal.congr {ownerArity : Nat} {visible visible' : Bytes → Prop}
    (h : ∀ v, visible v ↔ visible' v) :
    c.Legal ownerArity visible ↔ c.Legal ownerArity visible' := by
  rw [funext fun v => propext (h v)]

end Contract

/-! ### Predicates -/

/-- The bodies of a contract see what it inherits and what it binds. -/
def Predicate.Sees (p : Predicate) (c : Contract) (v : Bytes) : Prop := p.Inherits c v ∨ c.Binds v

/-- Every contract of the predicate is legal where it stands. -/
def Predicate.Legal (p : Predicate) : Prop :=
  ∀ c ∈ p.contracts, c.Legal p.inputDefs.length (p.Sees c)

/-- What the contracts of a predicate see and bind, and nothing else. -/
structure Bindings.Describe (b : Bindings) (p : Predicate) : Prop where
  names : b.scopes.map Prod.fst = p.contracts.map Contract.name
  scopes : ∀ c ∈ p.contracts, ∀ v, v ∈ b.scopes.get c.name ↔ p.Sees c v
  quantifiers : b.binders.map Prod.fst =
    (p.contracts.filter fun c => c.connective.isQuantifier).map Contract.name
  binders : ∀ n v, (n, v) ∈ b.binders ↔ ∃ c ∈ p.contracts, c.name = n ∧ c.Binds v

namespace Predicate

variable {p : Predicate} {c : Contract} {b : Bindings} {v : Bytes}

lemma mem_bodyScope_iff (hp : p.Coherent) (hc : c ∈ p.contracts) :
    v ∈ c.bodyScope (p.inheritedScopes.get c.name) ↔ p.Sees c v := by
  rw [Contract.mem_bodyScope_iff, mem_get_inheritedScopes hp hc, Sees]

/-- Validation accepts the legal contracts. -/
lemma exists_validate_contract_iff (hp : p.WellFormed) (hc : c ∈ p.contracts) :
    (∃ scope, c.validate (p.inheritedScopes.get c.name) (some p.inputDefs) = .ok scope) ↔
      c.Legal p.inputDefs.length (p.Sees c) := by
  have hsees : ∀ v, v ∈ c.bodyScope (p.inheritedScopes.get c.name) ↔ p.Sees c v :=
    fun v => mem_bodyScope_iff hp.toCoherent hc
  simp only [Contract.validate_eq_ok_iff (hp.contracts c hc), Contract.Legal.congr hsees,
    exists_and_left, exists_eq, and_true]

/-- What validation answers for a legal predicate. -/
def bindings (p : Predicate) : Bindings where
  scopes := p.contracts.map fun c => (c.name, c.bodyScope (p.inheritedScopes.get c.name))
  binders := p.binders

lemma validate_eq_ok_iff (hp : p.WellFormed) : p.validate = .ok b ↔ p.Legal ∧ b = p.bindings := by
  have hcontracts {scopes : Scopes} : forItems (fun c => do
      let scope ← c.validate (p.inheritedScopes.get c.name) (some p.inputDefs)
      return (c.name, scope)) p.contracts = .ok scopes ↔ p.Legal ∧ scopes = p.bindings.scopes := by
    apply Outcome.forItems_eq_ok_iff
    intro c hc y
    have hsees : ∀ v, v ∈ c.bodyScope (p.inheritedScopes.get c.name) ↔ p.Sees c v :=
      fun v => mem_bodyScope_iff hp.toCoherent hc
    simp only [Outcome.bind_eq_ok, Outcome.pure_eq_ok,
      Contract.validate_eq_ok_iff (hp.contracts c hc), Contract.Legal.congr hsees]
    constructor
    · rintro ⟨_, ⟨hlegal, rfl⟩, rfl⟩
      exact ⟨hlegal, rfl⟩
    · rintro ⟨hlegal, rfl⟩
      exact ⟨_, ⟨hlegal, rfl⟩, rfl⟩
  simp only [validate, Outcome.bind_eq_ok, inField_eq_ok, hcontracts, Outcome.pure_eq_ok]
  constructor
  · rintro ⟨_, ⟨hlegal, rfl⟩, rfl⟩
    exact ⟨hlegal, rfl⟩
  · rintro ⟨hlegal, rfl⟩
    exact ⟨_, ⟨hlegal, rfl⟩, rfl⟩

/-- Validation fails as the first contract does that fails, seen from the predicate. -/
lemma exists_of_validate_eq_error {e : Failure} (h : p.validate = .error e) :
    ∃ (i : Nat) (c : Contract) (e' : Failure), p.contracts[i]? = some c ∧
      c.validate (p.inheritedScopes.get c.name) (some p.inputDefs) = .error e' ∧
      e = e'.under [.field (Text.ofString "contracts"), .item i] ∧
      ∀ k < i, ∀ b, p.contracts[k]? = some b →
        ∃ scope, b.validate (p.inheritedScopes.get b.name) (some p.inputDefs) = .ok scope := by
  obtain hcontracts | ⟨_, -, hscopes⟩ := Outcome.bind_eq_error.mp h
  · obtain ⟨e₁, hitems, rfl⟩ := Outcome.below_eq_error.mp hcontracts
    obtain ⟨i, c, e', hi, hc, rfl, hbefore⟩ := Outcome.exists_of_forItems_eq_error hitems
    obtain hc | ⟨_, -, hname⟩ := Outcome.bind_eq_error.mp hc
    · refine ⟨i, c, e', hi, hc, Failure.under_under .., fun k hk b hb => ?_⟩
      obtain ⟨_, hb⟩ := hbefore k hk b hb
      obtain ⟨scope, hb, -⟩ := Outcome.bind_eq_ok.mp hb
      exact ⟨scope, hb⟩
    · cases hname
  · cases hscopes

lemma map_fst_binders (hp : p.WellFormed) : p.binders.map Prod.fst =
    (p.contracts.filter fun c => c.connective.isQuantifier).map Contract.name := by
  rw [binders, List.map_filterMap, ← List.filterMap_eq_map, List.filterMap_filter]
  apply List.filterMap_congr
  intro c hc
  -- a well-formed contract binds a variable exactly if it is a quantifier, so both filters agree
  have hsome := (hp.contracts c hc).isSome_boundVariable?_iff
  cases hv : c.boundVariable? with
  | none =>
    have hquantifier : ¬ c.connective.isQuantifier := by simpa [hv] using hsome
    exact (if_neg hquantifier).symm
  | some v =>
    have hquantifier : c.connective.isQuantifier := by simpa [hv] using hsome
    exact (if_pos hquantifier).symm

lemma bindings_describe (hp : p.WellFormed) : p.bindings.Describe p where
  names := by simp [bindings]
  scopes c hc v := by
    have hnames : p.bindings.scopes.names.Nodup := by
      simpa [bindings, Scopes.names, Function.comp_def] using hp.contractNames
    rw [Scopes.get_eq_of_mem hnames (List.mem_map_of_mem hc), mem_bodyScope_iff hp.toCoherent hc]
  quantifiers := map_fst_binders hp
  binders n v := by
    simp only [bindings, binders, List.mem_filterMap, Option.map_eq_some_iff, Prod.mk.injEq,
      Contract.boundVariable?_eq_some_iff]
    constructor
    · rintro ⟨c, hc, _, hv, rfl, rfl⟩
      exact ⟨c, hc, rfl, hv⟩
    · rintro ⟨c, hc, rfl, hv⟩
      exact ⟨c, hc, v, hv, rfl, rfl⟩

/-- Validation accepts exactly the legal predicates, and reports what their contracts see and
bind. -/
theorem exists_validate_iff (hp : p.WellFormed) :
    ((∃ b, p.validate = .ok b) ↔ p.Legal) ∧ ∀ b, p.validate = .ok b → b.Describe p := by
  simp only [validate_eq_ok_iff hp]
  refine ⟨⟨?_, fun h => ⟨p.bindings, h, rfl⟩⟩, ?_⟩
  · rintro ⟨b, h, -⟩
    exact h
  · rintro b ⟨-, rfl⟩
    exact bindings_describe hp

/-- A quantifier over the second parameter of its owner, whose body is another contract. That one
calls its own parameter on the variable which it inherits. -/
def inheritor : Predicate where
  name := [0x70]
  inputDefs := [[0x61], [0x62]]
  contracts := [
    { name := [0x41], origin := [], connective := .thereExists, inputDefs := []
      inputs := [.placeholder [0x63], .placeholder [0x76], .placeholder [0x42]]
      propertyInputs := [{ index := 1 }] },
    { name := [0x42], origin := [], connective := .not, inputDefs := [[0x78]]
      inputs := [.proposition { call := .input { index := 0 }, inputs := [.var [0x76] []] }] }]
  entryPoint := [0x41]

lemma inheritor_wellFormed : inheritor.WellFormed where
  contractNames := by decide
  constantNames := by decide
  entryPoint := by decide
  contracts := by
    simp only [inheritor, List.forall_mem_cons]
    exact ⟨.quantifier rfl _ _ _, .negation _, fun _ h => by cases h⟩

lemma inheritor_legal : inheritor.Legal := by
  have ha : inheritor.contracts[0] ∈ inheritor.contracts := List.getElem_mem _
  have hb : inheritor.contracts[1] ∈ inheritor.contracts := List.getElem_mem _
  have hab : inheritor.Encloses inheritor.contracts[0] inheritor.contracts[1] :=
    ⟨ha, hb, 2, _, ⟨rfl, fun _ => rfl⟩, .placeholder _⟩
  have hsees : inheritor.Sees inheritor.contracts[1] [0x76] :=
    .inl ⟨_, ha, ⟨rfl, rfl⟩, .single hab⟩
  intro c hc
  rcases List.mem_pair.mp hc with rfl | rfl
  · exact ⟨by simp, by simp [NormalInput.Within, inheritor]⟩
  · refine ⟨fun q hq => ?_, by simp⟩
    obtain rfl := Entry.proposition.inj (List.mem_singleton.mp hq)
    refine ⟨by simp [NormalInput.Within], by simp, fun v cs hv => ?_⟩
    obtain ⟨rfl, -⟩ := Input.var.inj (List.mem_singleton.mp hv)
    exact hsees

theorem exists_validate_inheritor : inheritor.WellFormed ∧ ∃ b, inheritor.validate = .ok b :=
  ⟨inheritor_wellFormed, (exists_validate_iff inheritor_wellFormed).1.mpr inheritor_legal⟩

end Predicate

end Clausal
