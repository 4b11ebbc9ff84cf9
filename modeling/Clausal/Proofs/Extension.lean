import Clausal.Proofs.Faults
import Clausal.Proofs.Legality

/-!
# Predicates with more contracts

Contracts can be added to a predicate, and all of them put in another order. A name that led nowhere
may then name a contract, and contracts may come to enclose one another in new circles; but what
enclosed another contract still does. So no contract loses a variable that it inherited, and what
was legal stays legal: if the predicate is refused then it is for one of the added contracts.
-/

namespace Clausal

/-- The predicate `q` has the contracts of `p` and the contracts `added` in some order, and is like
`p` in all else. -/
structure Predicate.Extends (q p : Predicate) (added : List Contract) : Prop where
  rest : q = { p with contracts := q.contracts }
  contracts : q.contracts.Perm (p.contracts ++ added)

namespace Predicate.Extends

variable {p q : Predicate} {added : List Contract} {a b c : Contract} {v : Bytes}

lemma inputDefs (h : q.Extends p added) : q.inputDefs = p.inputDefs := by rw [h.rest]

lemma mem_contracts_iff (h : q.Extends p added) :
    c ∈ q.contracts ↔ c ∈ p.contracts ∨ c ∈ added := by
  rw [h.contracts.mem_iff, List.mem_append]

lemma mem_contracts (h : q.Extends p added) (hc : c ∈ p.contracts) : c ∈ q.contracts :=
  h.mem_contracts_iff.mpr (.inl hc)

/-- Where nothing is added either predicate extends the other. -/
lemma symm (h : q.Extends p []) : p.Extends q [] where
  rest := by rw [h.rest]
  contracts := by simpa using h.contracts.symm

lemma names_perm (h : q.Extends p added) : (q.contracts.map Contract.name).Perm
    (p.contracts.map Contract.name ++ added.map Contract.name) := by
  rw [← List.map_append]
  exact h.contracts.map _

/-- A part of a coherent predicate is coherent. -/
lemma coherent (hq : q.Coherent) (h : q.Extends p added) : p.Coherent where
  contractNames := (List.nodup_append.mp (h.names_perm.nodup_iff.mp hq.contractNames)).1
  constantNames := by
    have hnames := hq.constantNames
    rwa [h.rest] at hnames
  entryPoint := by
    have hentry := hq.entryPoint
    rwa [h.rest] at hentry

lemma wellFormed (hq : q.WellFormed) (h : q.Extends p added) : p.WellFormed where
  toCoherent := h.coherent hq.toCoherent
  contracts := fun c hc => hq.contracts c (h.mem_contracts hc)

/-! ### What contracts see -/

lemma encloses (h : q.Extends p added) (hab : p.Encloses a b) : q.Encloses a b :=
  ⟨h.mem_contracts hab.left, h.mem_contracts hab.right, hab.body⟩

lemma inherits (h : q.Extends p added) (hv : p.Inherits c v) : q.Inherits c v := by
  obtain ⟨a, ha, hbinds, hreach⟩ := hv
  have hle : p.Encloses ≤ q.Encloses := fun _ _ => h.encloses
  exact ⟨a, h.mem_contracts ha, hbinds, Relation.TransGen.mono hle _ _ hreach⟩

lemma sees (h : q.Extends p added) (hv : p.Sees c v) : q.Sees c v := hv.imp_left h.inherits

lemma inherits_iff (h : q.Extends p []) : q.Inherits c v ↔ p.Inherits c v :=
  ⟨h.symm.inherits, h.inherits⟩

end Predicate.Extends

/-! ### What stays legal -/

namespace Predicate

variable {p q : Predicate} {added : List Contract} {c : Contract}

/-- The contracts of a legal predicate are legal in what extends it. -/
lemma Extends.legal (h : q.Extends p added) (hp : p.Legal) (hc : c ∈ p.contracts) :
    c.Legal q.inputDefs.length (q.Sees c) := by
  rw [h.inputDefs]
  exact (hp c hc).mono fun _ => h.sees

/-- Contracts keep what they inherit when others are added, and inherit nothing else when none are.
If a valid predicate is no longer valid with the contracts added to it, one of these is at fault. -/
theorem Extends.inheritedScopes_mono_and_blames_added (hq : q.WellFormed) (h : q.Extends p added) :
    (∀ c ∈ p.contracts, ∀ v,
      v ∈ p.inheritedScopes.get c.name → v ∈ q.inheritedScopes.get c.name) ∧
    (added = [] → ∀ c ∈ p.contracts, ∀ v,
      v ∈ q.inheritedScopes.get c.name ↔ v ∈ p.inheritedScopes.get c.name) ∧
    ((∃ b, p.validate = .ok b) → ∀ e, q.validate = .error e →
      ∃ i c f path, q.contracts[i]? = some c ∧ c ∈ added ∧ c ∉ p.contracts ∧
        e = .fault f ∧ f.path = .field "contracts" :: .item i :: path) := by
  have hp := h.wellFormed hq
  have hold {c : Contract} {v : Bytes} (hc : c ∈ p.contracts) :
      v ∈ p.inheritedScopes.get c.name ↔ p.Inherits c v :=
    mem_get_inheritedScopes hp.toCoherent hc
  have hnew {c : Contract} {v : Bytes} (hc : c ∈ p.contracts) :
      v ∈ q.inheritedScopes.get c.name ↔ q.Inherits c v :=
    mem_get_inheritedScopes hq.toCoherent (h.mem_contracts hc)
  refine ⟨?_, ?_, ?_⟩
  · intro c hc v
    rw [hold hc, hnew hc]
    exact h.inherits
  · rintro rfl c hc v
    rw [hold hc, hnew hc]
    exact h.inherits_iff
  · rintro ⟨b, hb⟩ e he
    have hlegal : p.Legal := ((validate_eq_ok_iff hp).mp hb).1
    obtain ⟨i, c, e', hi, hfails, rfl, -⟩ := exists_of_validate_eq_error he
    obtain ⟨f, rfl⟩ := c.onlyFaults_validate _ _ e' hfails
    have hc : c ∈ q.contracts := List.mem_of_getElem? hi
    -- an old contract stays legal, so the one that fails is new
    have hnot : c ∉ p.contracts := by
      intro hmem
      obtain ⟨scope, hvalid⟩ := (exists_validate_contract_iff hq hc).mpr (h.legal hlegal hmem)
      rw [hvalid] at hfails
      cases hfails
    have hadded : c ∈ added := (h.mem_contracts_iff.mp hc).resolve_left hnot
    exact ⟨i, c, _, f.path, hi, hadded, hnot, rfl, rfl⟩

/-- A quantifier whose body is a contract of the surroundings. -/
def outreach : Predicate where
  name := [0x70]
  inputDefs := [[0x61]]
  contracts := [
    { name := [0x41], origin := [], connective := .forAll, inputDefs := []
      inputs := [.placeholder [0x63], .placeholder [0x76], .placeholder [0x42]]
      propertyInputs := [{ index := 0 }] }]
  entryPoint := [0x41]

/-- The contract that the quantifier named, which refers back to it and calls a parameter that it
does not have. -/
def newcomer : Contract where
  name := [0x42]
  origin := []
  connective := .and
  inputDefs := []
  inputs := [.placeholder [0x41], .proposition { call := .input { index := 3 } }]

lemma outreach_wellFormed :
    { outreach with contracts := newcomer :: outreach.contracts }.WellFormed where
  contractNames := by decide
  constantNames := by decide
  entryPoint := by decide
  contracts := by
    simp only [outreach, List.forall_mem_cons]
    exact ⟨.junction rfl (by decide), .quantifier rfl _ _ _, fun _ h => by cases h⟩

theorem Extends.inheritedScopes_mono_and_blames_added_outreach :
    let extended := { outreach with contracts := newcomer :: outreach.contracts }
    extended.WellFormed ∧ extended.Extends outreach [newcomer] ∧
      (∃ b, outreach.validate = .ok b) ∧ ∃ e, extended.validate = .error e ∧
        ∃ i c f path, extended.contracts[i]? = some c ∧ c ∈ [newcomer] ∧
          c ∉ outreach.contracts ∧ e = .fault f ∧
          f.path = .field "contracts" :: .item i :: path := by
  have hextends : { outreach with contracts := newcomer :: outreach.contracts }.Extends outreach
      [newcomer] := ⟨rfl, (List.perm_append_singleton newcomer outreach.contracts).symm⟩
  have hvalid : ∃ b, outreach.validate = .ok b := ⟨_, rfl⟩
  obtain ⟨-, -, hblames⟩ :=
    Extends.inheritedScopes_mono_and_blames_added outreach_wellFormed hextends
  exact ⟨outreach_wellFormed, hextends, hvalid, _, rfl, hblames hvalid _ rfl⟩

end Predicate

end Clausal
