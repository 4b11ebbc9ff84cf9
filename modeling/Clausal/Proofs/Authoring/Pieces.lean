import Clausal.Proofs.Authoring.Blame
import Clausal.Proofs.Authoring.Role
import Clausal.Proofs.Faults
import Clausal.Proofs.Legality

/-!
# Documents in pieces

A loaded document can be read as a whole, or one object inside it at a time. The contracts of a
predicate, read one by one with what they inherit from it, are its contracts; the predicate is valid
if they all are, and fails as the first of them does that fails. The propositions of a valid
predicate and their inputs are what their objects denote where they stand.
-/

namespace Clausal

open Members (HasItems)

/-! ### The way to a piece -/

lemma Members.HasItems.exists_follow? {α : Type} {ms : Members} {field : String}
    {R : Json → α → Prop} {as : List α} {i : Nat} {a : α} (h : HasItems ms field R as)
    (ha : as[i]? = some a) :
    ∃ v, (Json.object ms).follow? [.field (Text.ofString field), .item i] = some v ∧ R v a := by
  obtain ⟨js, hget, hjs⟩ := h
  obtain ⟨v, hv, hR⟩ := Outcome.exists_getElem?_of_forall₂ hjs ha
  have hitem : (Json.array js).part? (.item i) = some v := hv
  refine ⟨v, ?_, hR⟩
  rw [Json.follow?_cons_of_part? (Json.part?_of_get hget), Json.follow?_cons_of_part? hitem,
    Json.follow?_nil]

/-! ### What a piece denotes -/

namespace Role

/-- What the part of a loaded value that a path leads to denotes in a role. -/
def denotePart (parser : Parser) (config : Config) (r : Role) (d : Json) (path : Path) :
    Option (Outcome r.Value) :=
  (d.follow? path).map fun v => (r.denote parser config (.ofJson v)).outcome

variable {parser : Parser} {config : Config} {r : Role} {d : Json} {path : Path} {ms : Members}
  {x : r.Value}

/-- The document was loaded, so that its parts are not nested too deeply either. -/
lemma denotePart_eq (hd : (d.height : Int) ≤ config.maxDepth)
    (hpath : d.follow? path = some (.object ms)) (hx : r.ofJson config (.object ms) = .ok x) :
    r.denotePart parser config d path = some (do r.check x; return x) := by
  have hdepth : ((Json.object ms).height : Int) ≤ config.maxDepth :=
    (Int.ofNat_le.mpr (Json.height_le_of_follow? hpath)).trans hd
  have hload : ((Source.ofJson (.object ms)).load parser config).outcome =
      .ok (.loaded (.object ms)) :=
    Source.outcome_load_loaded hdepth
  rw [denotePart, hpath, Option.map_some, outcome_denote_of_load hload, Document.place_loaded,
    denoteJson, Document.value, hx, Outcome.ok_bind]

lemma denotePart_eq_ok (hd : (d.height : Int) ≤ config.maxDepth)
    (hpath : d.follow? path = some (.object ms)) (hx : r.ofJson config (.object ms) = .ok x)
    (hvalid : r.Valid x) : r.denotePart parser config d path = some (.ok x) := by
  have hcheck : r.check x = .ok () := check_eq_ok.mpr hvalid
  rw [denotePart_eq hd hpath hx, hcheck]
  rfl

end Role

/-! ### The pieces of a predicate -/

/-- The parameters and variables of a proposition's inputs are checked like those of one input. -/
lemma Source.checkInput_eq_validate (defs scope : List Bytes) (i : Input) :
    checkInput (some defs) (some scope) i = i.validate defs.length scope := by
  cases i <;> rfl

lemma Proposition.Legal.checkInput_eq_ok {defs scope : List Bytes} {t : Proposition} {x : Input}
    (h : t.Legal defs.length (· ∈ scope)) (hx : x ∈ t.inputs) :
    Source.checkInput (some defs) (some scope) x = .ok () := by
  rw [Source.checkInput_eq_validate, Input.validate_eq_ok_iff]
  constructor
  · rintro i rfl
    exact h.normal i hx
  · rintro v cs rfl
    exact h.var v cs hx

namespace Predicate

/-- What the object of a contract denotes, given what the contract inherits in a predicate and the
parameters of the predicate. -/
def denoteContract (parser : Parser) (config : Config) (d : Json) (p : Predicate) (i : Nat)
    (c : Contract) : Option (Outcome Contract) :=
  (Role.contract (p.inheritedScopes.get c.name) (some p.inputDefs)).denotePart parser config d
    [.field "contracts", .item i]

variable {parser : Parser} {config : Config} {d : Json} {p : Predicate} {c : Contract}
  {t : Proposition} {x : Input}
  {i j k : Nat}

lemma DenotedBy.exists_contract (h : p.DenotedBy config d) (hc : p.contracts[i]? = some c) :
    ∃ ms, d.follow? [.field "contracts", .item i] = some (.object ms) ∧
      c.DenotedBy config (.object ms) := by
  obtain ⟨ms, rfl, -, hp⟩ := h
  obtain ⟨_, hpath, ns, rfl, hcontract⟩ := hp.contracts.exists_follow? hc
  exact ⟨ns, hpath, ns, rfl, hcontract⟩

lemma DenotedBy.exists_proposition (h : p.DenotedBy config d) (hc : p.contracts[i]? = some c)
    (ht : c.inputs[j]? = some (.proposition t)) :
    ∃ ms, d.follow? [.field "contracts", .item i, .field "inputs", .item j] = some (.object ms) ∧
      t.DenotedBy config (.object ms) := by
  obtain ⟨_, hpath, ms, ⟨rfl⟩, -, hfields⟩ := h.exists_contract hc
  obtain ⟨_, hentry, ns, rfl, hproposition⟩ := hfields.inputs.exists_follow? ht
  exact ⟨ns, (Json.follow?_append hpath).trans hentry, ns, rfl, hproposition⟩

lemma DenotedBy.exists_input (h : p.DenotedBy config d) (hc : p.contracts[i]? = some c)
    (ht : c.inputs[j]? = some (.proposition t)) (hx : t.inputs[k]? = some x) :
    ∃ ms, d.follow? [.field "contracts", .item i, .field "inputs", .item j, .field "inputs",
      .item k] = some (.object ms) ∧ x.DenotedBy config (.object ms) := by
  obtain ⟨_, hpath, ms, ⟨rfl⟩, -, hfields⟩ := h.exists_proposition hc ht
  obtain ⟨_, hinput, ns, rfl, hx⟩ := hfields.inputs.exists_follow? hx
  exact ⟨ns, (Json.follow?_append hpath).trans hinput, ns, rfl, hx⟩

/-- The object of a contract denotes the contract if this is valid in the predicate, and otherwise
fails as its validation does. -/
lemma denoteContract_eq (hd : (d.height : Int) ≤ config.maxDepth)
    (hread : Predicate.ofJson config d = .ok p) (hc : p.contracts[i]? = some c) :
    denoteContract parser config d p i c =
      some (do let _ ← c.validate (p.inheritedScopes.get c.name) (some p.inputDefs); return c) := by
  obtain ⟨hp, hdenoted⟩ := ofJson_eq_ok.mp hread
  obtain ⟨ms, hpath, hms⟩ := hdenoted.exists_contract hc
  have hcontract : (Role.contract (p.inheritedScopes.get c.name) (some p.inputDefs)).ofJson config
      (.object ms) = .ok c :=
    Contract.ofJson_eq_ok.mpr ⟨hp.contracts c (List.mem_of_getElem? hc), hms⟩
  rw [denoteContract, Role.denotePart_eq hd hpath hcontract, Role.check, bind_assoc]
  rfl

lemma denoteContract_eq_ok (hd : (d.height : Int) ≤ config.maxDepth)
    (hread : Predicate.ofJson config d = .ok p) (hc : p.contracts[i]? = some c) {c' : Contract} :
    denoteContract parser config d p i c = some (.ok c') ↔
      c' = c ∧ c.Legal p.inputDefs.length (p.Sees c) := by
  have hp : p.WellFormed := (ofJson_eq_ok.mp hread).1
  rw [denoteContract_eq hd hread hc, ← exists_validate_contract_iff hp (List.mem_of_getElem? hc)]
  simp only [Option.some.injEq, Outcome.bind_eq_ok, Outcome.pure_eq_ok, exists_and_right]
  exact and_comm

/-- A value that denotes a predicate denotes it also as a document if it is valid. -/
lemma denote_eq (hd : (d.height : Int) ≤ config.maxDepth)
    (hread : Predicate.ofJson config d = .ok p) :
    (Role.predicate.denote parser config (.ofJson d)).outcome =
      (do let _ ← p.validate; return p) := by
  obtain ⟨ms, rfl, -⟩ := (ofJson_eq_ok.mp hread).2
  have hpart : Role.predicate.denotePart parser config (.object ms) [] =
      some (do Role.predicate.check p; return p) :=
    Role.denotePart_eq hd Json.follow?_nil hread
  refine (Option.some.inj hpart).trans ?_
  rw [Role.check, bind_assoc]
  rfl

lemma denote_eq_ok (hd : (d.height : Int) ≤ config.maxDepth)
    (hread : Predicate.ofJson config d = .ok p) {q : Predicate} :
    (Role.predicate.denote parser config (.ofJson d)).outcome = .ok q ↔ q = p ∧ p.Legal := by
  rw [denote_eq hd hread]
  simp only [Outcome.bind_eq_ok, Outcome.pure_eq_ok, validate_eq_ok_iff (ofJson_eq_ok.mp hread).1]
  constructor
  · rintro ⟨_, ⟨hlegal, -⟩, rfl⟩
    exact ⟨rfl, hlegal⟩
  · rintro ⟨rfl, hlegal⟩
    exact ⟨_, ⟨hlegal, rfl⟩, rfl⟩

/-- A predicate fails as a document like the first of its contracts that fails on its own. -/
lemma exists_of_denote_eq_error (hd : (d.height : Int) ≤ config.maxDepth)
    (hread : Predicate.ofJson config d = .ok p) {e : Failure}
    (he : (Role.predicate.denote parser config (.ofJson d)).outcome = .error e) :
    ∃ i c f, p.contracts[i]? = some c ∧
      denoteContract parser config d p i c = some (.error (.fault f)) ∧
      (∀ k < i, ∀ b, p.contracts[k]? = some b →
        denoteContract parser config d p k b = some (.ok b)) ∧
      e = .fault { f with path := .field "contracts" :: .item i :: f.path } := by
  rw [denote_eq hd hread] at he
  obtain hvalidate | ⟨_, -, hreturn⟩ := Outcome.bind_eq_error.mp he
  · obtain ⟨i, c, e', hi, hfails, rfl, hbefore⟩ := exists_of_validate_eq_error hvalidate
    obtain ⟨f, rfl⟩ := c.onlyFaults_validate _ _ e' hfails
    -- a contract that fails, fails as it does alone; those before it are accepted alone
    refine ⟨i, c, f, hi, ?_, fun k hk b hb => ?_, rfl⟩
    · rw [denoteContract_eq hd hread hi, hfails]
      rfl
    · obtain ⟨scope, hscope⟩ := hbefore k hk b hb
      rw [denoteContract_eq hd hread hb, hscope]
      rfl
  · cases hreturn

/-- The propositions of a legal predicate are legal for what validation reports. -/
lemma legal_proposition (hp : p.WellFormed) (hlegal : p.Legal) (hc : p.contracts[i]? = some c)
    (ht : c.inputs[j]? = some (.proposition t)) :
    t.Legal c.inputDefs.length (· ∈ p.bindings.scopes.get c.name) := by
  have hmem : c ∈ p.contracts := List.mem_of_getElem? hc
  have hsees (v : Bytes) : v ∈ p.bindings.scopes.get c.name ↔ p.Sees c v :=
    (bindings_describe hp).scopes c hmem v
  exact ((hlegal c hmem).propositions t (List.mem_of_getElem? ht)).mono fun v => (hsees v).mpr

/-- In a legal predicate the object of a proposition denotes the proposition where it stands. -/
lemma denote_proposition (hd : (d.height : Int) ≤ config.maxDepth)
    (hread : Predicate.ofJson config d = .ok p) (hlegal : p.Legal)
    (hc : p.contracts[i]? = some c) (ht : c.inputs[j]? = some (.proposition t)) :
    (Role.proposition (some c.inputDefs) (p.bindings.scopes.get c.name)).denotePart parser config d
      [.field "contracts", .item i, .field "inputs", .item j] = some (.ok t) := by
  obtain ⟨hp, hdenoted⟩ := ofJson_eq_ok.mp hread
  obtain ⟨ms, hpath, hms⟩ := hdenoted.exists_proposition hc ht
  refine Role.denotePart_eq_ok hd hpath (Proposition.ofJson_eq_ok.mpr hms) ?_
  rintro _ ⟨⟩
  exact Proposition.validate_eq_ok_iff.mpr (legal_proposition hp hlegal hc ht)

/-- In a legal predicate the object of an input of a proposition denotes it where it stands. -/
lemma denote_input (hd : (d.height : Int) ≤ config.maxDepth)
    (hread : Predicate.ofJson config d = .ok p) (hlegal : p.Legal)
    (hc : p.contracts[i]? = some c) (ht : c.inputs[j]? = some (.proposition t))
    (hx : t.inputs[k]? = some x) :
    (Role.input (some c.inputDefs) (some (p.bindings.scopes.get c.name))).denotePart parser config d
      [.field "contracts", .item i, .field "inputs", .item j, .field "inputs", .item k] =
        some (.ok x) := by
  obtain ⟨hp, hdenoted⟩ := ofJson_eq_ok.mp hread
  obtain ⟨ms, hpath, hms⟩ := hdenoted.exists_input hc ht hx
  refine Role.denotePart_eq_ok hd hpath (Input.ofJson_eq_ok.mpr hms) ?_
  exact (legal_proposition hp hlegal hc ht).checkInput_eq_ok (List.mem_of_getElem? hx)

/-- A loaded document whose value can be read as a predicate denotes the predicate if the objects of
all contracts denote contracts on their own, with what they inherit; these are the contracts of the
predicate. Otherwise it fails as the first of them that fails, seen from the whole. The propositions
of the predicate and their inputs denote themselves where they stand. -/
theorem denote_pieces (hload : ((Source.ofJson d).load parser config).outcome = .ok (.loaded d))
    (hread : Predicate.ofJson config d = .ok p) :
    (∀ i c, p.contracts[i]? = some c → ∃ y, denoteContract parser config d p i c = some y ∧
      ∀ c', y = .ok c' → c' = c) ∧
    ((∃ q, (Role.predicate.denote parser config (.ofJson d)).outcome = .ok q) ↔
      ∀ i c, p.contracts[i]? = some c →
        ∃ c', denoteContract parser config d p i c = some (.ok c')) ∧
    (∀ e, (Role.predicate.denote parser config (.ofJson d)).outcome = .error e →
      ∃ i c f, p.contracts[i]? = some c ∧
        denoteContract parser config d p i c = some (.error (.fault f)) ∧
        (∀ k < i, ∀ b, p.contracts[k]? = some b →
          denoteContract parser config d p k b = some (.ok b)) ∧
        e = .fault { f with path := .field "contracts" :: .item i :: f.path }) ∧
    ∀ q, (Role.predicate.denote parser config (.ofJson d)).outcome = .ok q → q = p ∧
      ∃ b, p.validate = .ok b ∧ ∀ i c j t, p.contracts[i]? = some c →
        c.inputs[j]? = some (.proposition t) →
        (Role.proposition (some c.inputDefs) (b.scopes.get c.name)).denotePart parser config d
          [.field "contracts", .item i, .field "inputs", .item j] = some (.ok t) ∧
        ∀ k x, t.inputs[k]? = some x →
          (Role.input (some c.inputDefs) (some (b.scopes.get c.name))).denotePart parser config d
            [.field "contracts", .item i, .field "inputs", .item j, .field "inputs", .item k] =
              some (.ok x) := by
  have hd : (d.height : Int) ≤ config.maxDepth := (Source.outcome_load_eq_ok.mp hload).2.2
  have hp : p.WellFormed := (ofJson_eq_ok.mp hread).1
  refine ⟨?_, ?_, fun e he => exists_of_denote_eq_error hd hread he, ?_⟩
  · intro i c hc
    refine ⟨_, denoteContract_eq hd hread hc, ?_⟩
    intro c' hc'
    obtain ⟨_, -, hreturn⟩ := Outcome.bind_eq_ok.mp hc'
    exact Outcome.pure_eq_ok.mp hreturn
  · simp only [denote_eq_ok hd hread, exists_eq_left]
    constructor
    · intro hlegal i c hc
      have hmem : c ∈ p.contracts := List.mem_of_getElem? hc
      exact ⟨c, (denoteContract_eq_ok hd hread hc).mpr ⟨rfl, hlegal c hmem⟩⟩
    · intro hpieces c hc
      obtain ⟨i, hi⟩ := List.getElem?_of_mem hc
      obtain ⟨c', hc'⟩ := hpieces i c hi
      exact ((denoteContract_eq_ok hd hread hi).mp hc').2
  · intro q hq
    obtain ⟨rfl, hlegal⟩ := (denote_eq_ok hd hread).mp hq
    -- what a legal predicate sees is what the scopes of its bindings say, and with these its parts
    -- stand alone
    refine ⟨rfl, q.bindings, (validate_eq_ok_iff hp).mpr ⟨hlegal, rfl⟩, ?_⟩
    intro i c j t hc ht
    exact ⟨denote_proposition hd hread hlegal hc ht,
      fun k x hx => denote_input hd hread hlegal hc ht hx⟩

/-- The document of a predicate whose second contract uses a variable that it inherits. -/
def inheritorJson : Json := .object [
  ("type", .string "CompiledPredicate"), ("name", .string "p"),
  ("inputDefs", .array [.string "a", .string "b"]),
  ("contracts", .array [
    .object [
      ("type", .string "IntermediateCompiledPredicate"), ("name", .string "A"),
      ("originalPredicateName", .string ""), ("connective", .string "ThereExistsSuchThat"),
      ("inputDefs", .array []), ("inputs", .array [.string "c", .string "v", .string "B"]),
      ("propertyInputs", .array [
        .object [("type", .string "NormalInput"), ("inputIndex", .int 1)]])],
    .object [
      ("type", .string "IntermediateCompiledPredicate"), ("name", .string "B"),
      ("originalPredicateName", .string ""), ("connective", .string "Not"),
      ("inputDefs", .array [.string "x"]), ("inputs", .array [.object [
        ("type", .string "AtomicProposition"),
        ("predicate", .object [("type", .string "InputPredicateCall"),
          ("source", .object [("type", .string "NormalInput"), ("inputIndex", .int 0)])]),
        ("inputs", .array [.object [("type", .string "VariableInput"),
          ("placeholder", .string "v")]])]])]]),
  ("entryPoint", .string "A")]

theorem denote_pieces_inheritor :
    ((Source.ofJson inheritorJson).load .standard {}).outcome = .ok (.loaded inheritorJson) ∧
    Predicate.ofJson {} inheritorJson = .ok inheritor ∧
    ∃ b, inheritor.validate = .ok b ∧
      (Role.input (some [[0x78]]) (some (b.scopes.get [0x42]))).denotePart .standard {}
        inheritorJson
        [.field "contracts", .item 1, .field "inputs", .item 0, .field "inputs", .item 0] =
          some (.ok (.var [0x76] [])) := by
  have hdepth : (inheritorJson.height : Int) ≤ ({} : Config).maxDepth := by
    simp [inheritorJson, Json.height]
  have hload : ((Source.ofJson inheritorJson).load .standard {}).outcome =
      .ok (.loaded inheritorJson) :=
    Source.outcome_load_loaded hdepth
  have hread : Predicate.ofJson {} inheritorJson = .ok inheritor := rfl
  have hwhole : (Role.predicate.denote .standard {} (.ofJson inheritorJson)).outcome =
      .ok inheritor :=
    denote_eq hdepth hread
  obtain ⟨-, -, -, hpieces⟩ := denote_pieces hload hread
  obtain ⟨-, b, hb, hparts⟩ := hpieces _ hwhole
  exact ⟨hload, hread, b, hb, (hparts 1 _ 0 _ rfl rfl).2 0 _ rfl⟩

end Predicate

end Clausal
