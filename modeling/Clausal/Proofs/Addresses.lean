import Clausal.Proofs.Authoring.Blame
import Clausal.Proofs.Authoring.Projection
import Clausal.Proofs.Legality
import Clausal.Proofs.References

/-!
# The first illegal address

Validation of a predicate stops at the first of its addresses that is not legal. The path of its
fault leads to this address in the authoring form of the predicate.
-/

namespace Clausal

open Reference (ofField ofItems)
open Outcome (Inspects)

/-! ### Where addresses stand -/

/-- An address of a predicate at the end of a path: in the source of a call, in an input of a call,
or in a property input. -/
inductive Predicate.Refers (p : Predicate) : Path → Address → Prop
  | source {i j : Nat} {c : Contract} {q : Proposition} {n : NormalInput}
      (hc : p.contracts[i]? = some c) (hq : c.IsBody j (.proposition q)) (hn : q.call = .input n) :
      p.Refers [.field "contracts", .item i, .field "inputs", .item j, .field "predicate",
        .field "source", .field "inputIndex"] (.parameter n.index c.inputDefs.length)
  | normal {i j k : Nat} {c : Contract} {q : Proposition} {n : NormalInput}
      (hc : p.contracts[i]? = some c) (hq : c.IsBody j (.proposition q))
      (hn : q.inputs[k]? = some (.normal n)) :
      p.Refers [.field "contracts", .item i, .field "inputs", .item j, .field "inputs", .item k,
        .field "inputIndex"] (.parameter n.index c.inputDefs.length)
  | var {i j k : Nat} {c : Contract} {q : Proposition} {v : Bytes} {cs : List Int8}
      (hc : p.contracts[i]? = some c) (hq : c.IsBody j (.proposition q))
      (hv : q.inputs[k]? = some (.var v cs)) :
      p.Refers [.field "contracts", .item i, .field "inputs", .item j, .field "inputs", .item k,
        .field "placeholder"] (.var v c)
  | property {i k : Nat} {c : Contract} {n : NormalInput} (hc : p.contracts[i]? = some c)
      (hn : c.propertyInputs[k]? = some n) :
      p.Refers [.field "contracts", .item i, .field "propertyInputs", .item k,
        .field "inputIndex"] (.parameter n.index p.inputDefs.length)

variable {r : Reference}

lemma Input.mem_references_iff {user : Contract} {i : Input} : r ∈ i.references user ↔
    (∃ n, i = .normal n ∧
      r = ⟨[.field "inputIndex"], .parameter n.index user.inputDefs.length⟩) ∨
    ∃ v cs, i = .var v cs ∧ r = ⟨[.field "placeholder"], .var v user⟩ := by
  cases i <;> simp [references, NormalInput.references]

lemma Call.mem_references_iff {user : Contract} {c : Call} : r ∈ c.references user ↔
    ∃ n, c = .input n ∧
      r = ⟨[.field "source", .field "inputIndex"], .parameter n.index user.inputDefs.length⟩ := by
  cases c <;> simp [references, NormalInput.references, Reference.under]

lemma Entry.mem_references_iff {user : Contract} {e : Entry} : r ∈ e.references user ↔
    ∃ q, e = .proposition q ∧ r ∈ q.references user := by
  cases e <;> simp [references]

lemma Contract.mem_references_iff {ownerArity : Nat} {c : Contract} :
    r ∈ c.references ownerArity ↔
      (∃ j q, c.IsBody j (.proposition q) ∧ ∃ t ∈ q.references c,
        r = t.under [.field "inputs", .item j]) ∨
      ∃ k n, c.propertyInputs[k]? = some n ∧
        r = ⟨[.field "propertyInputs", .item k, .field "inputIndex"],
          .parameter n.index ownerArity⟩ := by
  simp only [references, bodyReferences, List.mem_append, Reference.mem_ofField_iff,
    List.mem_flatMap, Prod.exists, mem_bodies_iff, List.mem_map, Entry.mem_references_iff,
    Reference.mem_ofItems_iff, NormalInput.references, List.mem_singleton]
  constructor
  · rintro (⟨_, ⟨j, _, hbody, t, ⟨q, rfl, ht⟩, rfl⟩, rfl⟩ | ⟨_, ⟨k, n, hn, _, rfl, rfl⟩, rfl⟩)
    · exact .inl ⟨j, q, hbody, t, ht, rfl⟩
    · exact .inr ⟨k, n, hn, rfl⟩
  · rintro (⟨j, q, hbody, t, ht, rfl⟩ | ⟨k, n, hn, rfl⟩)
    · exact .inl ⟨_, ⟨j, _, hbody, t, ⟨q, rfl, ht⟩, rfl⟩, rfl⟩
    · exact .inr ⟨_, ⟨k, n, hn, _, rfl, rfl⟩, rfl⟩

/-- The references of a predicate are its addresses with their paths. -/
lemma Predicate.mem_references_iff {p : Predicate} :
    r ∈ p.references ↔ p.Refers r.path r.address := by
  simp only [references, Reference.mem_ofField_iff, Reference.mem_ofItems_iff,
    Contract.mem_references_iff, Proposition.references, List.mem_append, Call.mem_references_iff,
    Input.mem_references_iff]
  constructor
  -- there are four kinds of references: two of propositions, by their source or an input, and that
  -- of a property
  · rintro ⟨_, ⟨i, c, hc, _, ⟨j, q, hq, _, ht, rfl⟩ | ⟨k, n, hn, rfl⟩, rfl⟩, rfl⟩
    · rcases ht with ⟨_, ⟨n, hn, rfl⟩, rfl⟩ | ⟨_, ⟨k, _, hk, _, ⟨n, rfl, rfl⟩ | ⟨v, cs, rfl, rfl⟩,
        rfl⟩, rfl⟩
      · exact .source hc hq hn
      · exact .normal hc hq hk
      · exact .var hc hq hk
    · exact .property hc hn
  · obtain ⟨path, address⟩ := r
    intro h
    cases h with
    | source hc hq hn =>
      exact ⟨_, ⟨_, _, hc, _, .inl ⟨_, _, hq, _, .inl ⟨_, ⟨_, hn, rfl⟩, rfl⟩, rfl⟩, rfl⟩, rfl⟩
    | normal hc hq hn =>
      exact ⟨_, ⟨_, _, hc, _, .inl ⟨_, _, hq, _, .inr ⟨_, ⟨_, _, hn, _, .inl ⟨_, rfl, rfl⟩, rfl⟩,
        rfl⟩, rfl⟩, rfl⟩, rfl⟩
    | var hc hq hv =>
      exact ⟨_, ⟨_, _, hc, _, .inl ⟨_, _, hq, _, .inr ⟨_, ⟨_, _, hv, _, .inr ⟨_, _, rfl, rfl⟩, rfl⟩,
        rfl⟩, rfl⟩, rfl⟩, rfl⟩
    | property hc hn => exact ⟨_, ⟨_, _, hc, _, .inr ⟨_, _, hn, rfl⟩, rfl⟩, rfl⟩

/-! ### Validation of a predicate -/

variable {p : Predicate} {user c : Contract} {arity : Nat}

lemma Predicate.validate_inspects (hp : p.WellFormed) :
    p.validate.Inspects (Reference.inspection p.Sees) p.references := by
  refine (Inspects.forItems fun c hc => ?_).inField.bind_ok _
  exact (Contract.validate_inspects fun _ => mem_bodyScope_iff hp.toCoherent hc).bind_ok _

/-! ### Addresses in the authoring form -/

/-- The value says what the address does: the number of the parameter or the name of the
variable. -/
def Address.SpelledBy (j : Json) : Address → Prop
  | parameter index _ => j = .int index.toNat
  | var name _ => nameJson name = .ok j

/-- The paths of the references lead through the value to what their addresses say. -/
def Json.LeadsTo (j : Json) (rs : List Reference) : Prop :=
  ∀ r ∈ rs, ∃ v, j.follow? r.path = some v ∧ r.address.SpelledBy v

namespace Json.LeadsTo

variable {j v : Json} {ms : Members} {rs ts : List Reference}

lemma nil : j.LeadsTo [] := List.forall_mem_nil _

lemma append (hr : j.LeadsTo rs) (ht : j.LeadsTo ts) : j.LeadsTo (rs ++ ts) :=
  List.forall_mem_append.mpr ⟨hr, ht⟩

lemma under {s : Step} (hv : j.part? s = some v) (h : v.LeadsTo rs) :
    j.LeadsTo (rs.map (.under [s])) := by
  refine List.forall_mem_map.mpr fun r hr => ?_
  obtain ⟨w, hw, hspelled⟩ := h r hr
  exact ⟨w, (follow?_cons_of_part? hv).trans hw, hspelled⟩

lemma field {name : String} (hv : Members.get? ms name = some v) (h : v.LeadsTo rs) :
    (object ms).LeadsTo (ofField name rs) := under (part?_of_get hv) h

lemma items {α : Type} {R : Json → α → Prop} {f : α → List Reference} {js : List Json}
    {as : List α} (hR : List.Forall₂ R js as) (h : ∀ v a, R v a → v.LeadsTo (f a)) :
    (array js).LeadsTo (ofItems f as) := by
  refine List.forall_mem_flatMap.mpr fun a ha => ?_
  obtain ⟨v, hv, hRv⟩ := Outcome.exists_getElem?_of_forall₂ hR (List.mem_zipIdx_iff_getElem?.mp ha)
  exact under hv (h v a.1 hRv)

end Json.LeadsTo

open Json (LeadsTo)

variable {config : Config} {j : Json}

lemma NormalInput.leadsTo {i : NormalInput} (h : i.DenotedBy config j) :
    j.LeadsTo (i.references arity) := by
  obtain ⟨ms, rfl, -, hi⟩ := h
  refine List.forall_mem_singleton.mpr ⟨_, ?_, rfl⟩
  exact Json.follow?_cons_of_part? (Json.part?_of_get hi.index)

lemma Input.leadsTo {i : Input} (h : i.DenotedBy config j) : j.LeadsTo (i.references user) := by
  obtain ⟨ms, rfl, htag, hi⟩ := h
  cases i with
  | normal i => exact NormalInput.leadsTo ⟨ms, rfl, htag, hi⟩
  | var name cs =>
    obtain ⟨v, hget, hv⟩ := hi.1
    exact List.forall_mem_singleton.mpr
      ⟨v, Json.follow?_cons_of_part? (Json.part?_of_get hget), hv⟩
  | constant | label | self => exact .nil

lemma Call.leadsTo {c : Call} (h : c.DenotedBy config j) : j.LeadsTo (c.references user) := by
  obtain ⟨ms, rfl, -, hc⟩ := h
  cases c with
  | input i =>
    obtain ⟨v, hget, hv⟩ := hc
    exact .field hget (NormalInput.leadsTo hv)
  | atomic | compiled | var => exact .nil

lemma Proposition.leadsTo {q : Proposition} (h : q.DenotedBy config j) :
    j.LeadsTo (q.references user) := by
  obtain ⟨ms, rfl, -, hq⟩ := h
  obtain ⟨v, hcall, hv⟩ := hq.call
  obtain ⟨js, hinputs, hjs⟩ := hq.inputs
  exact (LeadsTo.field hcall (Call.leadsTo hv)).append
    (.field hinputs (.items hjs fun _ _ => Input.leadsTo))

lemma Entry.leadsTo {e : Entry} (h : e.DenotedBy config j) : j.LeadsTo (e.references user) := by
  cases e with
  | proposition q => exact Proposition.leadsTo h
  | placeholder name => exact .nil

lemma Contract.leadsTo (h : c.DenotedBy config j) : j.LeadsTo (c.references arity) := by
  obtain ⟨ms, rfl, -, hc⟩ := h
  obtain ⟨js, hinputs, hjs⟩ := hc.inputs
  refine (LeadsTo.field hinputs (List.forall_mem_flatMap.mpr ?_)).append ?_
  · rintro ⟨i, e⟩ hbody
    obtain ⟨v, hv, he⟩ := Outcome.exists_getElem?_of_forall₂ hjs (mem_bodies_iff.mp hbody).1
    exact LeadsTo.under hv (Entry.leadsTo he)
  · obtain ⟨-, hnil⟩ | ⟨js, hproperties, hjs⟩ := hc.propertyInputs
    · rw [hnil]
      exact .nil
    · exact .field hproperties (.items hjs fun _ _ => NormalInput.leadsTo)

lemma Predicate.leadsTo (h : p.DenotedBy config j) : j.LeadsTo p.references := by
  obtain ⟨ms, rfl, -, hp⟩ := h
  obtain ⟨js, hcontracts, hjs⟩ := hp.contracts
  exact .field hcontracts (.items hjs fun _ _ => Contract.leadsTo)

/-! ### The first illegal address -/

namespace Predicate

/-- Validation fails exactly if some address is not legal. Its fault is that of the first such
address in the order of the references, and in the authoring form, if there is one, the path of the
fault leads to the number or the name at fault. -/
theorem validate_first_illegal (hp : p.WellFormed) :
    (∀ r, r ∈ p.references ↔ p.Refers r.path r.address) ∧
    ((∃ e, p.validate = .error e) ↔ ∃ r ∈ p.references, ¬r.address.Legal p.Sees) ∧
    ∀ e, p.validate = .error e → ∃ r : Reference,
      (Reference.inspection p.Sees).IsFirst p.references r ∧
      p.Refers r.path r.address ∧ e = .fault ⟨r.address.cause, r.path, none⟩ ∧
      r.address.cause.kind = r.address.faultKind ∧
      ∀ j, p.toJson = .ok j → ∃ v, j.follow? r.path = some v ∧ r.address.SpelledBy v := by
  have hinspects := validate_inspects hp
  have hmem {r : Reference} (h : (Reference.inspection p.Sees).IsFirst p.references r) :
      r ∈ p.references ∧ ¬r.address.Legal p.Sees := by
    obtain ⟨before, after, heq, -, hr⟩ := h
    exact ⟨heq ▸ List.mem_append_right _ List.mem_cons_self, hr⟩
  refine ⟨fun _ => mem_references_iff, ⟨?_, ?_⟩, fun e he => ?_⟩
  · rintro ⟨e, he⟩
    obtain ⟨r, hr, -⟩ := hinspects.stops e he
    exact ⟨r, hmem hr⟩
  · rintro ⟨r, hr, hillegal⟩
    cases h : p.validate with
    | error e => exact ⟨e, rfl⟩
    | ok b => exact (hillegal (hinspects.inOrder b h r hr)).elim
  · obtain ⟨r, hr, rfl⟩ := hinspects.stops e he
    refine ⟨r, hr, mem_references_iff.mp (hmem hr).1, rfl, r.address.kind_cause, fun j hj => ?_⟩
    have hdenoted : p.DenotedBy {} j := denotedBy_of_toJson hj
    exact leadsTo hdenoted r (hmem hr).1

/-- A quantifier over a variable that its body uses, and a contract with an input that nothing binds
behind one that is legal and before a property input that is not. -/
def astray : Predicate where
  name := [0x70]
  inputDefs := []
  contracts := [
    { name := [0x41], origin := [], connective := .forAll, inputDefs := []
      inputs := [.placeholder [0x63], .placeholder [0x76],
        .proposition { call := .var, inputs := [.var [0x76] []] }] },
    { name := [0x42], origin := [], connective := .or, inputDefs := [[0x78]]
      inputs := [.placeholder [0x41], .proposition
        { call := .input { index := 0 }, inputs := [.normal { index := 0 }, .var [0x77] []] }]
      propertyInputs := [{ index := 7 }] }]
  entryPoint := [0x41]

lemma astray_wellFormed : astray.WellFormed where
  contractNames := by decide
  constantNames := by decide
  entryPoint := by decide
  contracts := by
    simp only [astray, List.forall_mem_cons]
    exact ⟨.quantifier rfl _ _ _, .junction rfl (by decide), fun _ h => by cases h⟩

lemma isText_of_mem_names_astray : ∀ n ∈ astray.names, Utf8.IsText n := by
  have hnames : astray.names = ["p", "A", "", "c", "v", "v", "B", "", "x", "A", "w", "A"].map
      fun s => Utf8.encode s.toList := by decide
  rw [hnames]
  exact List.forall_mem_map.mpr fun s _ => ⟨_, rfl⟩

theorem validate_first_illegal_astray : astray.WellFormed ∧
    ∃ r : Reference, (Reference.inspection astray.Sees).IsFirst astray.references r ∧
      r.path = [.field "contracts", .item 1, .field "inputs", .item 1, .field "inputs", .item 1,
        .field "placeholder"] ∧ r.address.cause = .unboundVariable [0x77] ∧
      ∃ j v, astray.toJson = .ok j ∧ j.follow? r.path = some v ∧ r.address.SpelledBy v := by
  have hfault : astray.validate = .error (.fault ⟨.unboundVariable [0x77], [.field "contracts",
      .item 1, .field "inputs", .item 1, .field "inputs", .item 1, .field "placeholder"],
      none⟩) := rfl
  obtain ⟨-, -, hfirst⟩ := validate_first_illegal astray_wellFormed
  obtain ⟨r, hr, -, heq, -, hfollow⟩ := hfirst _ hfault
  obtain ⟨hcause, hpath, -⟩ := Fault.mk.inj (Failure.fault.inj heq)
  obtain ⟨j, hj⟩ := (exists_toJson_iff astray).mpr isText_of_mem_names_astray
  obtain ⟨v, hv, hspelled⟩ := hfollow j hj
  exact ⟨astray_wellFormed, r, hr, hpath.symm, hcause.symm, j, v, hj, hv, hspelled⟩

end Predicate

end Clausal
