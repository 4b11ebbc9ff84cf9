import Clausal.Proofs.Authoring.Projection
import Clausal.Proofs.Authoring.Role
import Clausal.Proofs.Faults
import Clausal.Proofs.Wire.Countable
import Clausal.Proofs.Wire.Yields

/-!
# The two forms of a predicate agree

The parts of a predicate, well formed or not, can be given as bytes or as an object. Either way they
are put together in the same order and checked for the same things, so that both are answered by the
same predicate or refused for the same fault.
-/

namespace Clausal.Predicate

variable {p : Predicate} {parser : Parser} {config : Config}

/-- The predicate itself, provided that its contracts and its parts are in order and its addresses
legal. -/
def accept (p : Predicate) : Outcome Predicate := do
  let q ← p.assemble
  let _ ← q.validate
  return q

lemma onlyFaults_accept (p : Predicate) : Outcome.OnlyFaults p.accept :=
  (p.assemble_showsNoInteger.bind fun q =>
    q.validate_showsNoInteger.bind fun _ => .ok q).onlyFaults

lemma outcome_decodeNoted {bs : Bytes} (h : p.encode = .ok bs) :
    (decodeNoted bs true).outcome = p.accept := by
  have hdecode : Slot.predicate.decode bs = p.assemble := (reader_yields h).run
  simp only [decodeNoted, validateNoted, if_true, Traced.outcome_bind, Traced.outcome_liftM,
    Traced.outcome_note, Traced.outcome_pure, hdecode, Outcome.ok_bind, bind_assoc]
  rfl

lemma outcome_toPredicate {j : Json} (h : p.toJson = .ok j) (hdepth : 9 ≤ config.maxDepth) :
    ((Source.loaded j).toPredicate parser config).outcome = p.accept := by
  have hheight : (j.height : Int) ≤ config.maxDepth := by
    have : j.height ≤ 9 := (tidy_of_toJson (n := 0) h).height_le
    omega
  have hread : ofJson config j = p.assemble := ofJson_eq_assemble (denotedBy_of_toJson h)
  have hload : ((Source.loaded j).load parser config).outcome = .ok (.loaded j) :=
    Source.outcome_load_loaded hheight
  have hdenote := Role.outcome_denote_of_load hload .predicate
  rw [Role.denote, Document.place_loaded, Role.denoteJson, Role.ofJson, Document.value, hread]
    at hdenote
  rw [hdenote]
  simp only [Role.check, accept, bind_assoc, pure_bind]

/-- Bytes and object of the same parts are answered by the same predicate, or refused for the same
fault at the same path. -/
theorem decode_and_denote_agree (hnames : ∀ n ∈ p.names, Utf8.IsText n) (hcount : p.Countable)
    (hdepth : 9 ≤ config.maxDepth) :
    ∃ bs j, p.encode = .ok bs ∧ p.toJson = .ok j ∧
      ((∃ q, (decodeNoted bs true).outcome = .ok q ∧
          ((Source.loaded j).toPredicate parser config).outcome = .ok q) ∨
        ∃ f, (decodeNoted bs true).outcome = .error (.fault f) ∧
          ((Source.loaded j).toPredicate parser config).outcome = .error (.fault f)) := by
  obtain ⟨bs, hbs⟩ := exists_encode_iff.mpr hcount
  obtain ⟨j, hj⟩ := (exists_toJson_iff p).mpr hnames
  refine ⟨bs, j, hbs, hj, ?_⟩
  rw [outcome_decodeNoted hbs, outcome_toPredicate hj hdepth]
  cases h : p.accept with
  | ok q => exact .inl ⟨q, rfl, rfl⟩
  | error e =>
    obtain ⟨f, rfl⟩ := p.onlyFaults_accept e h
    exact .inr ⟨f, rfl, rfl⟩

/-- A predicate with a variable that nothing binds, too few inputs in a contract, a repeated name
and no entry point. -/
def muddle : Predicate where
  name := [0x70]
  inputDefs := []
  contracts := [
    { name := [0x41], origin := [], connective := .not, inputDefs := []
      inputs := [.proposition { call := .var, inputs := [.var [0x76] [-1]] }] },
    { name := [0x41], origin := [], connective := .and, inputDefs := []
      inputs := [.placeholder [0xc3, 0xa9]] }]
  constants := some [{ kind := .bytes, name := [] }]
  entryPoint := []

lemma isText_of_mem_names_muddle : ∀ n ∈ muddle.names, Utf8.IsText n := by
  have hnames : muddle.names = ["p", "A", "", "v", "A", "", "é", "", ""].map
      fun s => Utf8.encode s.toList := by decide
  rw [hnames]
  exact List.forall_mem_map.mpr fun s _ => ⟨_, rfl⟩

theorem decode_and_denote_agree_muddle :
    (∀ n ∈ muddle.names, Utf8.IsText n) ∧ muddle.Countable ∧
    ∃ bs j, muddle.encode = .ok bs ∧ muddle.toJson = .ok j ∧
      ((∃ q, (decodeNoted bs true).outcome = .ok q ∧
          ((Source.loaded j).toPredicate .standard {}).outcome = .ok q) ∨
        ∃ f, (decodeNoted bs true).outcome = .error (.fault f) ∧
          ((Source.loaded j).toPredicate .standard {}).outcome = .error (.fault f)) :=
  have hcount : muddle.Countable := exists_encode_iff.mp ⟨_, rfl⟩
  ⟨isText_of_mem_names_muddle, hcount,
    decode_and_denote_agree isText_of_mem_names_muddle hcount (by decide)⟩

end Clausal.Predicate
