import Clausal.Authoring.Denotation
import Clausal.Node.Forms
import Clausal.Proofs.Authoring.Loading
import Clausal.Proofs.Authoring.LoweringNodes
import Clausal.Proofs.Authoring.NormalForm

/-!
# What a document can stand for

A document denotes a node of a certain class, or a connective. Its role says which, together with
what is known of the surroundings that the node is checked against.
-/

namespace Clausal

/-- What a document stands for, with the surroundings it is checked against as far as they are
given. -/
inductive Role where
  | predicate
  | contract (inherited : List Bytes) (ownerDefs : Option (List Bytes))
  | proposition (defs : Option (List Bytes)) (scope : List Bytes)
  | call
  | input (defs scope : Option (List Bytes))
  | constant
  | connective

namespace Role

/-- The values of a role. -/
abbrev Value : Role → Type
  | predicate => Predicate
  | contract .. => Contract
  | proposition .. => Proposition
  | call => Call
  | input .. => Input
  | constant => Constant
  | connective => Connective

/-- What a document denotes in a role. -/
def denote (parser : Parser) (config : Config) (s : Source) : (r : Role) → Traced r.Value
  | predicate => s.toPredicate parser config
  | contract inherited ownerDefs => s.toContract parser config inherited ownerDefs
  | proposition defs scope => s.toProposition parser config defs scope
  | call => s.toCall parser config
  | input defs scope => s.toInput parser config defs scope
  | constant => s.toConstant parser config
  | connective => s.toConnective parser config

/-- A value of a role as an argument. -/
def toArgument : (r : Role) → r.Value → Argument
  | predicate, p => .node (.predicate p) []
  | contract .., c => .node (.contract c) []
  | proposition .., p => .node (.proposition p) []
  | call, c => .node (.call c) []
  | input .., i => .node (.input i) []
  | constant, c => .node (.constant c) []
  | connective, c => .symbol (.connective c)

/-- The authoring form of a value of a role. -/
def toJson (r : Role) (x : r.Value) : Outcome Json := (r.toArgument x).toJson

/-- The normal form of a value that stands for a value of a role. -/
def normalForm : Role → Json → Json
  | predicate => Predicate.normalForm
  | contract .. => Contract.normalForm
  | proposition .. => Proposition.normalForm
  | call => Call.normalForm
  | input .. => Input.normalForm
  | constant => Constant.normalForm
  | connective => id

/-- The value of a role that a value denotes, whether or not it is valid in its surroundings. -/
def ofJson (config : Config) (j : Json) : (r : Role) → Outcome r.Value
  | predicate => Predicate.ofJson config j
  | contract .. => Contract.ofJson config j
  | proposition .. => Proposition.ofJson config j
  | call => Call.ofJson config j
  | input .. => Input.ofJson config j
  | constant => Constant.ofJson config j
  | connective => j.asSymbol

/-- The value is valid in the surroundings of its role. -/
def Valid : (r : Role) → r.Value → Prop
  | predicate, p => ∃ b, p.validate = .ok b
  | contract inherited ownerDefs, c => ∃ scope, c.validate inherited ownerDefs = .ok scope
  | proposition defs scope, p => ∀ ds ∈ defs, p.validate ds.length scope = .ok ()
  | input defs scope, i => Source.checkInput defs scope i = .ok ()
  | call, _ | constant, _ | connective, _ => True

/-- The value is well formed, as all values are that classes let be built. -/
def WellFormed : (r : Role) → r.Value → Prop
  | predicate, p => p.WellFormed
  | contract .., c => c.WellFormed
  | proposition .., _ | call, _ | input .., _ | constant, _ | connective, _ => True

/-- The names in a value of a role. -/
def names : (r : Role) → r.Value → List Bytes
  | predicate, p => p.names
  | contract .., c => c.names
  | proposition .., p => p.names
  | call, c => c.names
  | input .., i => i.names
  | constant, c => c.names
  | connective, _ => []

variable {parser : Parser} {config : Config} {s : Source} {j : Json} {r : Role} {x : r.Value}

/-- Checks a value in the surroundings of its role. -/
def check : (r : Role) → r.Value → Outcome Unit
  | predicate, p => do let _ ← p.validate
  | contract inherited ownerDefs, c => do let _ ← c.validate inherited ownerDefs
  | proposition none _, _ => .ok ()
  | proposition (some defs) scope, p => p.validate defs.length scope
  | input defs scope, i => Source.checkInput defs scope i
  | call, _ | constant, _ | connective, _ => .ok ()

/-- The value of a role that a value denotes, checked in its surroundings. -/
def denoteJson (config : Config) (r : Role) (j : Json) : Outcome r.Value := do
  let x ← r.ofJson config j
  r.check x
  return x

/-! ### Lowering -/

/-- Lowers a document to a value of a role. -/
def lower (config : Config) : (r : Role) → Document → Path → Lowering r.Value
  | predicate => Predicate.lower config
  | contract .. => Contract.lower config
  | proposition .. => Proposition.lower config
  | call => Call.lower config
  | input .. => Input.lower config
  | constant => Constant.lower config
  | connective => Lowering.scalar Json.asSymbol

/-- Where a value of a role holds what its check may blame. -/
def Spot : (r : Role) → r.Value → Path → Prop
  | predicate, p => p.Spot
  | contract .., c => c.Spot
  | proposition .., p => p.Spot
  | call, c => c.Spot
  | input .., i => i.Spot
  | constant, k => NameSpot k
  | connective, c => Lowering.Nowhere c

lemma lowers {d : Document} (hd : d.Distinct) (r : Role) :
    Lowering.Lowers d (r.lower config) (fun j => r.ofJson config j) r.Spot := by
  cases r with
  | predicate => exact Predicate.lowers hd
  | contract => exact Contract.lowers hd
  | proposition => exact Proposition.lowers hd
  | call => exact Call.lowers hd
  | input => exact Input.lowers hd
  | constant => exact Constant.lowers hd
  | connective => exact .scalar Json.faultsAt_asSymbol

lemma faultsAt_checkInput (defs scope : Option (List Bytes)) (i : Input) :
    (Source.checkInput defs scope i).FaultsAt i.Spot := by
  cases i with
  | normal i =>
    cases defs with
    | none => exact .ok ()
    | some defs =>
      exact (i.faultsAt_validate defs.length).mono fun _ h =>
        ⟨.withParameters defs, _, List.mem_cons_self, h.symm⟩
  | var name cs =>
    cases scope with
    | none => exact .ok ()
    | some scope =>
      rw [Source.checkInput, checkVisible]
      split
      · exact .ok ()
      · exact .below (.refuse ⟨.withParameters [], _, List.mem_cons_self, rfl⟩)
  | constant | label | self => exact .ok ()

lemma faultsAt_check (r : Role) (x : r.Value) : (r.check x).FaultsAt (r.Spot x) := by
  cases r with
  | predicate => exact (Predicate.faultsAt_validate x).bind fun _ _ => .ok ()
  | contract inherited defs =>
    exact (Contract.faultsAt_validate inherited defs x).bind fun _ _ => .ok ()
  | proposition defs scope =>
    cases defs with
    | none => exact .ok ()
    | some defs => exact Proposition.faultsAt_validate defs scope x
  | input defs scope => exact faultsAt_checkInput defs scope x
  | call | constant | connective => exact .ok ()

/-- Lowering a document and checking what was lowered is reading and checking its value, with the
positions of the document for faults. -/
lemma lower_check {d : Document} (hd : d.Distinct) (r : Role) :
    (do
      let (x, known) ← (r.lower config d []).run []
      known.place (r.check x)
      return x : Outcome r.Value) = d.place (r.denoteJson config d.value) := by
  -- at the root nothing is known yet, and nothing has to be
  have hlowers : Lowering.Lowers d (r.lower config) _ _ := r.lowers hd
  have htracks := hlowers [] d Path.isPlain_nil rfl (fun _ => False)
    (fun _ => False.elim) fun h => (h rfl).elim
  have hempty : Positions.Holds d (fun _ => False) [] := ⟨fun _ => rfl, fun _ => False.elim⟩
  rw [denoteJson]
  cases hx : r.ofJson config d.value with
  | error e =>
    have hrun : (r.lower config d []).run [] = .error (d.placeFailure (e.under [])) :=
      htracks.error [] hempty e hx
    have hunder : e.under [] = e := by cases e <;> rfl
    rw [hrun, hunder]
    rfl
  | ok x =>
    obtain ⟨known, hrun, hknown⟩ := htracks.ok [] hempty x hx
    have hplace : known.place (r.check x) = d.place (r.check x) :=
      hknown.place_eq ((faultsAt_check r x).mono fun q hq => .inr ⟨q, hq, rfl⟩)
    have hlower : (r.lower config d []).run [] = .ok (x, known) := hrun
    rw [hlower, Document.place_bind]
    change (do known.place (r.check x); return x : Outcome r.Value) =
      d.place (do r.check x; return x)
    rw [Document.place_bind, hplace]
    rfl

/-- A document that is loaded denotes what its value does, with positions for faults. -/
lemma outcome_denote_of_load {d : Document} (h : (s.load parser config).outcome = .ok d)
    (r : Role) : (r.denote parser config s).outcome = d.place (r.denoteJson config d.value) := by
  rw [← lower_check (Source.distinct_of_read (Source.outcome_load_eq_ok.mp h).2.1)]
  -- the table is known once the node is lowered, and what the checks fail with is placed by it
  cases r with
  | predicate =>
    simp only [denote, Source.toPredicate, Traced.outcome_bind, Traced.outcome_liftM, h,
      Outcome.ok_bind, lower, check]
    cases (Predicate.lower config d []).run [] with
    | error e => rfl
    | ok lowered =>
      obtain ⟨p, known⟩ := lowered
      change (do let _ ← known.place p.validate; return p : Outcome Predicate) =
        (do known.place (do let _ ← p.validate); return p)
      cases p.validate <;> rfl
  | contract inherited ownerDefs =>
    simp only [denote, Source.toContract, Traced.outcome_bind, Traced.outcome_liftM, h,
      Outcome.ok_bind, lower, check]
    cases (Contract.lower config d []).run [] with
    | error e => rfl
    | ok lowered =>
      obtain ⟨c, known⟩ := lowered
      change (do let _ ← known.place (c.validate inherited ownerDefs); return c : Outcome _) =
        (do known.place (do let _ ← c.validate inherited ownerDefs); return c)
      cases c.validate inherited ownerDefs <;> rfl
  | proposition defs scope =>
    simp only [denote, Source.toProposition, Traced.outcome_bind, Traced.outcome_liftM, h,
      Outcome.ok_bind, lower]
    cases (Proposition.lower config d []).run [] with
    | error e => rfl
    | ok lowered =>
      cases defs with
      | none => rfl
      | some defs =>
        simp only [Outcome.ok_bind, Traced.outcome_bind, Traced.outcome_liftM]
        rfl
  | input =>
    simp only [denote, Source.toInput, Traced.outcome_bind, Traced.outcome_liftM, h,
      Outcome.ok_bind, lower, check]
    cases (Input.lower config d []).run [] <;> rfl
  | call =>
    simp only [denote, Source.toCall, Traced.outcome_bind, Traced.outcome_liftM, h,
      Outcome.ok_bind, lower, StateT.run'_eq]
    cases (Call.lower config d []).run [] <;> rfl
  | constant =>
    simp only [denote, Source.toConstant, Traced.outcome_bind, Traced.outcome_liftM, h,
      Outcome.ok_bind, lower, StateT.run'_eq]
    cases (Constant.lower config d []).run [] <;> rfl
  | connective =>
    simp only [denote, Source.toConnective, Traced.outcome_bind, Traced.outcome_liftM, h,
      Outcome.ok_bind, lower, StateT.run'_eq]
    cases StateT.run (Lowering.scalar Json.asSymbol d [] : Lowering Connective) [] <;> rfl

/-- A document that is not loaded fails in every role as it does on loading. -/
lemma outcome_denote_of_error {e : Failure} (h : (s.load parser config).outcome = .error e)
    (r : Role) : (r.denote parser config s).outcome = .error e := by
  cases r <;>
  simp only [denote, Source.toPredicate, Source.toContract, Source.toProposition, Source.toCall,
    Source.toInput, Source.toConstant, Source.toConnective, Traced.outcome_bind, h] <;> rfl

lemma outcome_denote (parser : Parser) (config : Config) (s : Source) (r : Role) :
    (r.denote parser config s).outcome =
      (s.load parser config).outcome >>= fun d => d.place (r.denoteJson config d.value) := by
  cases h : (s.load parser config).outcome with
  | error e => exact outcome_denote_of_error h r
  | ok d => exact outcome_denote_of_load h r

lemma check_eq_ok {u : Unit} : r.check x = .ok u ↔ r.Valid x := by
  cases r with
  | predicate | contract =>
    rw [check, Outcome.bind_eq_ok]
    exact ⟨fun ⟨b, hb, _⟩ => ⟨b, hb⟩, fun ⟨b, hb⟩ => ⟨b, hb, rfl⟩⟩
  | proposition defs scope => cases defs <;> simp [check, Valid]
  | input | call | constant | connective => simp [check, Valid]

lemma denoteJson_eq_ok : r.denoteJson config j = .ok x ↔ r.ofJson config j = .ok x ∧ r.Valid x := by
  simp only [denoteJson, Outcome.bind_eq_ok, check_eq_ok]
  constructor
  · rintro ⟨_, hx, _, hvalid, ⟨rfl⟩⟩
    exact ⟨hx, hvalid⟩
  · rintro ⟨hx, hvalid⟩
    exact ⟨x, hx, (), hvalid, rfl⟩

/-- A document denotes a value of a role if it can be loaded, and what is loaded denotes the value
and is valid. -/
lemma outcome_denote_eq_ok : (r.denote parser config s).outcome = .ok x ↔
    ∃ d, (s.load parser config).outcome = .ok d ∧ r.ofJson config d.value = .ok x ∧ r.Valid x := by
  cases hload : (s.load parser config).outcome with
  | error e => simp [outcome_denote_of_error hload]
  | ok d =>
    rw [outcome_denote_of_load hload, Document.place_eq_ok, denoteJson_eq_ok]
    simp

/-- What denotes a value of a role is written back in normal form. -/
lemma toJson_of_ofJson (h : r.ofJson config j = .ok x) : r.toJson x = .ok (r.normalForm j) := by
  cases r with
  | predicate => exact Predicate.toJson_eq_normalForm (Predicate.ofJson_eq_ok.mp h).2
  | contract => exact Contract.toJson_eq_normalForm (Contract.ofJson_eq_ok.mp h).2
  | proposition => exact Proposition.toJson_eq_normalForm (Proposition.ofJson_eq_ok.mp h)
  | call => exact Call.toJson_eq_normalForm (Call.ofJson_eq_ok.mp h)
  | input => exact Input.toJson_eq_normalForm (Input.ofJson_eq_ok.mp h)
  | constant => exact Constant.toJson_eq_normalForm (Constant.ofJson_eq_ok.mp h)
  | connective =>
    obtain rfl := Json.asSymbol_eq_ok.mp h
    rfl

lemma wellFormed_of_ofJson (h : r.ofJson config j = .ok x) : r.WellFormed x := by
  cases r with
  | predicate => exact (Predicate.ofJson_eq_ok.mp h).1
  | contract => exact (Contract.ofJson_eq_ok.mp h).1
  | proposition | call | input | constant | connective => trivial

/-- What is written denotes the value again. -/
lemma ofJson_of_toJson (hx : r.WellFormed x) (h : r.toJson x = .ok j) :
    r.ofJson config j = .ok x := by
  cases r with
  | predicate => exact Predicate.ofJson_eq_ok.mpr ⟨hx, Predicate.denotedBy_of_toJson h⟩
  | contract => exact Contract.ofJson_eq_ok.mpr ⟨hx, Contract.denotedBy_of_toJson h⟩
  | proposition => exact Proposition.ofJson_eq_ok.mpr (Proposition.denotedBy_of_toJson h)
  | call => exact Call.ofJson_eq_ok.mpr (Call.denotedBy_of_toJson h)
  | input => exact Input.ofJson_eq_ok.mpr (Input.denotedBy_of_toJson h)
  | constant => exact Constant.ofJson_eq_ok.mpr (Constant.denotedBy_of_toJson h)
  | connective =>
    cases h
    exact Json.asSymbol_eq_ok.mpr rfl

lemma tidy_of_toJson {n : Nat} (h : r.toJson x = .ok j) : Json.Tidy (n + 9) j := by
  cases r with
  | predicate => exact Predicate.tidy_of_toJson h
  | contract => exact Contract.tidy_of_toJson h
  | proposition => exact Proposition.tidy_of_toJson h
  | call => exact Call.tidy_of_toJson h
  | input => exact Input.tidy_of_toJson h
  | constant => exact Constant.tidy_of_toJson h
  | connective =>
    cases h
    exact .ofString _

lemma exists_toJson_iff (r : Role) (x : r.Value) :
    (∃ j, r.toJson x = .ok j) ↔ ∀ n ∈ r.names x, Utf8.IsText n := by
  cases r with
  | predicate => exact Predicate.exists_toJson_iff x
  | contract => exact Contract.exists_toJson_iff x
  | proposition => exact Proposition.exists_toJson_iff x
  | call => exact Call.exists_toJson_iff x
  | input => exact Input.exists_toJson_iff x
  | constant => exact Constant.exists_toJson_iff x
  | connective => exact ⟨fun _ => nofun, fun _ => ⟨_, rfl⟩⟩

end Role

end Clausal
