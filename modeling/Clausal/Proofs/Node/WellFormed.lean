import Clausal.Node
import Clausal.Proofs.Outcome

/-!
# Well-formed nodes

A contract joins its inputs the way its connective demands. The contracts of a predicate have
different names, so have its constants, and evaluation starts somewhere. Every other class of nodes
is well formed by its type. The checks that build contracts and predicates accept exactly the
well-formed ones.
-/

namespace Clausal

/-! ### Contracts -/

/-- The inputs that a connective can join. -/
inductive Connective.Joins : Connective → List Entry → Prop
  | quantifier {c : Connective} (hc : c.isQuantifier) (collection binder : Bytes) (body : Entry) :
      Joins c [.placeholder collection, .placeholder binder, body]
  | negation (body : Entry) : Joins .not [body]
  | junction {c : Connective} (hc : c.isJunction) {bodies : List Entry} (h : 2 ≤ bodies.length) :
      Joins c bodies

lemma Connective.not_isQuantifier_of_isJunction {c : Connective} (h : c.isJunction) :
    ¬ c.isQuantifier := by
  cases c with
  | and | or => exact Bool.false_ne_true
  | forAll | thereExists | not => cases h

/-- Inputs that a connective can join have a shape. -/
lemma Connective.Joins.exists_shape {c : Connective} {es : List Entry} (h : c.Joins es) :
    ∃ s, c.shape es = .ok s := by
  cases h with
  | quantifier hc collection binder body =>
    cases c <;> simp [isQuantifier] at hc <;> simp [shape]
  | negation body => simp [shape]
  | junction hc hlen => cases c <;> simp [isJunction] at hc <;> simp [shape, hlen]

/-- Inputs with a shape can be joined. -/
lemma Connective.joins_of_shape {c : Connective} {es : List Entry} {s : Shape}
    (h : c.shape es = .ok s) : c.Joins es := by
  cases c with
  | forAll | thereExists =>
    simp only [shape] at h
    split at h
    · exact .quantifier rfl ..
    all_goals simp at h
  | not =>
    simp only [shape] at h
    split at h
    · exact .negation _
    · simp at h
  | and | or =>
    simp only [shape] at h
    split at h
    · exact .junction rfl ‹_›
    · simp at h

/-- A contract whose connective can join its inputs. -/
def Contract.WellFormed (c : Contract) : Prop := c.connective.Joins c.inputs

lemma Contract.checked_eq_ok_iff {c c' : Contract} :
    c.checked = .ok c' ↔ c.WellFormed ∧ c' = c := by
  unfold checked WellFormed
  simp only [Outcome.bind_eq_ok, Outcome.pure_eq_ok]
  constructor
  · rintro ⟨s, hs, rfl⟩
    exact ⟨Connective.joins_of_shape hs, rfl⟩
  · rintro ⟨h, rfl⟩
    obtain ⟨s, hs⟩ := h.exists_shape
    exact ⟨s, hs, rfl⟩

/-! ### Predicates -/

/-- Names that keep the parts of a predicate apart, and a place to start from. -/
structure Predicate.Coherent (p : Predicate) : Prop where
  contractNames : (p.contracts.map Contract.name).Nodup
  constantNames : ((p.constants.getD []).map Constant.name).Nodup
  entryPoint : p.entryPoint ≠ []

/-- A coherent predicate of well-formed contracts. -/
structure Predicate.WellFormed (p : Predicate) : Prop extends p.Coherent where
  contracts : ∀ c ∈ p.contracts, c.WellFormed

lemma distinctNames_eq_ok_iff {seen ns : List Bytes} {u : Unit} :
    distinctNames seen ns = .ok u ↔ ns.Nodup ∧ ∀ n ∈ ns, n ∉ seen := by
  induction ns generalizing seen with
  | nil => simp [distinctNames]
  | cons n ns ih =>
    by_cases hn : n ∈ seen
    · simp [distinctNames, hn]
    · simp only [distinctNames, List.contains_eq_mem, hn, decide_false, Bool.false_eq_true,
        if_false, ih, List.nodup_cons, List.mem_append, List.mem_singleton, List.forall_mem_cons,
        not_false_eq_true, true_and]
      grind

lemma Predicate.checked_eq_ok_iff {p p' : Predicate} :
    p.checked = .ok p' ↔ p.Coherent ∧ p' = p := by
  unfold checked
  by_cases he : p.entryPoint = []
  · have hp : ¬ p.Coherent := fun h => h.entryPoint he
    simp [he, hp]
  · have hne : ¬ p.entryPoint.isEmpty := by simpa using he
    simp only [hne, Outcome.bind_eq_ok, inField_eq_ok, distinctNames_eq_ok_iff]
    constructor
    · rintro ⟨_, ⟨hcontracts, -⟩, _, ⟨hconstants, -⟩, hp⟩
      exact ⟨⟨hcontracts, hconstants, he⟩, Outcome.pure_eq_ok.mp hp⟩
    · rintro ⟨h, rfl⟩
      exact ⟨(), ⟨h.contractNames, by simp⟩, (), ⟨h.constantNames, by simp⟩, rfl⟩

/-- The predicate itself, provided that its contracts and then its parts together are in order. -/
def Predicate.assemble (p : Predicate) : Outcome Predicate := do
  let contracts ← inField "contracts" (forItems Contract.checked p.contracts)
  checked { p with contracts }

lemma Predicate.assemble_eq_ok {p p' : Predicate} :
    p.assemble = .ok p' ↔ p.WellFormed ∧ p' = p := by
  have hcontracts (cs : List Contract) : forItems Contract.checked p.contracts = .ok cs ↔
      (∀ c ∈ p.contracts, c.WellFormed) ∧ cs = p.contracts := by
    have h : forItems Contract.checked p.contracts = .ok cs ↔
        (∀ c ∈ p.contracts, c.WellFormed) ∧ cs = p.contracts.map id :=
      Outcome.forItems_eq_ok_iff fun c _ _ => Contract.checked_eq_ok_iff
    rwa [List.map_id] at h
  simp only [assemble, Outcome.bind_eq_ok, inField_eq_ok, hcontracts, checked_eq_ok_iff]
  constructor
  · rintro ⟨_, ⟨hwf, rfl⟩, hcoherent, rfl⟩
    exact ⟨⟨hcoherent, hwf⟩, rfl⟩
  · rintro ⟨hp, rfl⟩
    exact ⟨_, ⟨hp.contracts, rfl⟩, hp.toCoherent, rfl⟩

end Clausal
