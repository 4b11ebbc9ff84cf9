import Clausal.Proofs.Enclosure.Passes
import Clausal.Proofs.Node.WellFormed
import Mathlib.Logic.Relation

/-!
# Scopes are reachability

A contract encloses the contracts of its predicate that its bodies refer to. The variables that a
contract inherits are those of the quantifiers from which it is reached by enclosure in at least
one step, whatever the order in which contracts and references are visited.
-/

namespace Clausal

/-! ### References and binders -/

/-- The name that an entry refers to: that of a placeholder, or the source of a call by name. -/
inductive Entry.RefersTo : Entry → Bytes → Prop
  | placeholder (name : Bytes) : RefersTo (.placeholder name) name
  | atomic {p : Proposition} {source : Bytes} (h : p.call = .atomic source) :
      RefersTo (.proposition p) source
  | compiled {p : Proposition} {source : Bytes} (h : p.call = .compiled source) :
      RefersTo (.proposition p) source

lemma Entry.reference?_eq_some_iff {e : Entry} {name : Bytes} :
    e.reference? = some name ↔ e.RefersTo name := by
  constructor
  · intro h
    cases e with
    | placeholder n =>
      cases h
      exact .placeholder name
    | proposition p =>
      simp only [reference?] at h
      split at h
      · next hcall =>
        cases h
        exact .atomic hcall
      · next hcall =>
        cases h
        exact .compiled hcall
      all_goals cases h
  · rintro (_ | h | h)
    · rfl
    · simp only [reference?, h]
    · simp only [reference?, h]

namespace Contract

variable {c : Contract} {i : Nat} {e : Entry} {v : Bytes}

/-- The input at a place is a clause body; of a quantifier only the last one is. -/
def IsBody (c : Contract) (i : Nat) (e : Entry) : Prop :=
  c.inputs[i]? = some e ∧ (c.connective.isQuantifier → i = 2)

lemma mem_bodies_iff : (i, e) ∈ c.bodies ↔ c.IsBody i e := by
  unfold bodies IsBody
  split
  · next hq =>
    split
    · next hinputs =>
      simp only [List.mem_singleton, Prod.mk.injEq, hq, true_implies, hinputs]
      constructor
      · rintro ⟨rfl, rfl⟩
        exact ⟨rfl, rfl⟩
      · rintro ⟨he, rfl⟩
        exact ⟨rfl, (Option.some.inj he).symm⟩
    -- fewer than three inputs leave no third one to be the body; more are no quantifier's
    · next hinputs =>
      simp only [List.not_mem_nil, hq, true_implies, false_iff, not_and]
      rintro he rfl
      obtain ⟨hlt, -⟩ := List.getElem?_eq_some_iff.mp he
      match hc : c.inputs with
      | _ :: _ :: _ :: _ => exact hinputs _ _ _ _ hc
      | [] | [_] | [_, _] => simp [hc] at hlt
  · next hq =>
    simp [hq, List.mem_zipIdx_iff_getElem?]

/-- The contract is a quantifier over a variable. -/
def Binds (c : Contract) (v : Bytes) : Prop :=
  c.connective.isQuantifier ∧ c.inputs[1]? = some (.placeholder v)

lemma boundVariable?_eq_some_iff : c.boundVariable? = some v ↔ c.Binds v := by
  unfold boundVariable? Binds
  split
  · next hq =>
    split
    · next hinputs => simp [hq, hinputs]
    · next hinputs =>
      simp only [reduceCtorEq, hq, true_and, false_iff]
      intro hv
      match hc : c.inputs with
      | _ :: _ :: _ =>
        rw [hc] at hv
        cases hv
        exact hinputs _ _ _ hc
      | [] | [_] => simp [hc] at hv
  · next hq => simp [hq]

end Contract

namespace Predicate

variable {p : Predicate} {a b c : Contract} {v : Bytes}

/-- A contract of the predicate has a body that refers to another, or to itself. -/
structure Encloses (p : Predicate) (a b : Contract) : Prop where
  left : a ∈ p.contracts
  right : b ∈ p.contracts
  body : ∃ i e, a.IsBody i e ∧ e.RefersTo b.name

/-- A quantifier over the variable reaches the contract by enclosure. -/
def Inherits (p : Predicate) (c : Contract) (v : Bytes) : Prop :=
  ∃ a ∈ p.contracts, a.Binds v ∧ Relation.TransGen p.Encloses a c

lemma mem_enclosed_iff {n : Bytes} :
    n ∈ p.enclosed a ↔
      n ∈ p.contracts.map Contract.name ∧ ∃ i e, a.IsBody i e ∧ e.RefersTo n := by
  simp only [enclosed, List.mem_eraseDups, List.mem_filter, List.mem_filterMap, Prod.exists,
    Contract.mem_bodies_iff, Entry.reference?_eq_some_iff, List.contains_eq_mem, decide_eq_true_eq]
  exact and_comm

lemma encloses_iff (ha : a ∈ p.contracts) (hb : b ∈ p.contracts) :
    p.Encloses a b ↔ b.name ∈ p.enclosed a := by
  rw [mem_enclosed_iff]
  exact ⟨fun h => ⟨List.mem_map_of_mem hb, h.body⟩, fun h => ⟨ha, hb, h.2⟩⟩

/-- Contracts with one name are one contract. -/
lemma Coherent.eq_of_name_eq (hp : p.Coherent) (ha : a ∈ p.contracts) (hb : b ∈ p.contracts)
    (h : a.name = b.name) : a = b :=
  List.inj_on_of_nodup_map hp.contractNames ha hb h

/-! ### Passes in any order -/

/-- Links that visit every contract once, in some order, and from each the contracts it encloses, in
some order. -/
def Sweep (p : Predicate) (ls : List Link) : Prop :=
  ∃ order : Contract → List Bytes, (∀ c ∈ p.contracts, (order c).Perm (p.enclosed c)) ∧
    ls.Perm (p.contracts.map fun c => ⟨c.name, c.boundVariable?, order c⟩)

/-- Passes, each in an order of its own, are made until one changes nothing. -/
inductive Settles (p : Predicate) : Scopes → Scopes → Prop
  | stop {ls : List Link} {s : Scopes} (hls : p.Sweep ls) (h : Link.pass ls s = s) : Settles p s s
  | again {ls : List Link} {s s' : Scopes} (hls : p.Sweep ls) (h : Link.pass ls s ≠ s)
      (hrest : Settles p (Link.pass ls s) s') : Settles p s s'

variable {ls : List Link} {s s' : Scopes}

lemma sweep_links (p : Predicate) : p.Sweep p.links :=
  ⟨p.enclosed, fun _ _ => .refl _, .refl _⟩

lemma Sweep.covered (hls : p.Sweep ls) : Link.Covered ls p.links := by
  obtain ⟨order, horder, hperm⟩ := hls
  intro l hl
  obtain ⟨c, hc, rfl⟩ := List.mem_map.mp (hperm.mem_iff.mp hl)
  exact ⟨_, List.mem_map_of_mem hc, rfl, rfl, fun t ht => (horder c hc).mem_iff.mp ht⟩

lemma Sweep.covers (hls : p.Sweep ls) : Link.Covered p.links ls := by
  obtain ⟨order, horder, hperm⟩ := hls
  intro k hk
  obtain ⟨c, hc, rfl⟩ := List.mem_map.mp hk
  exact ⟨_, hperm.mem_iff.mpr (List.mem_map_of_mem hc), rfl, rfl,
    fun t ht => (horder c hc).mem_iff.mpr ht⟩

/-! ### Nothing extra -/

/-- Contracts see inherited variables only. -/
def Sound (p : Predicate) (s : Scopes) : Prop :=
  ∀ n v, v ∈ s.get n → ∃ c ∈ p.contracts, c.name = n ∧ p.Inherits c v

lemma sound_noScopes (p : Predicate) : p.Sound p.noScopes := by
  intro n v h
  have hempty : ∀ cs : List Contract, Scopes.get (cs.map fun c => (c.name, [])) n = [] := by
    intro cs
    induction cs with
    | nil => rfl
    | cons c cs ih =>
      rw [List.map_cons, Scopes.get_cons, ih]
      exact ite_self _
  rw [noScopes, hempty] at h
  simp at h

/-- What a contract inherits or binds, those that it encloses inherit. -/
lemma Encloses.inherits (h : p.Encloses a b) (hv : p.Inherits a v ∨ a.Binds v) :
    p.Inherits b v := by
  rcases hv with ⟨q, hq, hbinds, hreach⟩ | hbinds
  · exact ⟨q, hq, hbinds, hreach.tail h⟩
  · exact ⟨a, h.left, hbinds, .single h⟩

lemma Sound.pass (hp : p.Coherent) (hls : p.Sweep ls) (hs : p.Sound s) :
    p.Sound (Link.pass ls s) := by
  intro n v
  apply Link.pass_induction (R := fun n => ∃ c ∈ p.contracts, c.name = n ∧ p.Inherits c v)
  · exact fun n hn => hs n v hn
  · intro l hl t ht _ hv
    -- the link is that of a contract `a`, its target the name of a contract `b` which `a` encloses
    obtain ⟨k, hk, hsource, hbinder, htargets⟩ := hls.covered l hl
    obtain ⟨a, ha, rfl⟩ := List.mem_map.mp hk
    have ht := htargets t ht
    obtain ⟨b, hb, rfl⟩ := List.mem_map.mp (mem_enclosed_iff.mp ht).1
    refine ⟨b, hb, rfl, ((encloses_iff ha hb).mpr ht).inherits ?_⟩
    rcases hv with ⟨c, hc, hname, hv⟩ | hv
    · obtain rfl := hp.eq_of_name_eq hc ha (hname.trans hsource.symm)
      exact .inl hv
    · exact .inr (Contract.boundVariable?_eq_some_iff.mp (hbinder.trans hv))

/-! ### Nothing missing -/

@[simp] lemma names_noScopes (p : Predicate) :
    p.noScopes.names = p.contracts.map Contract.name := by
  simp [noScopes, Scopes.names]

/-- Where links keep what they hand on, variables have gone along all paths. -/
lemma mem_get_of_inherits (hs : s.names = p.contracts.map Contract.name)
    (hsettled : Link.SettledFor p.links s v) (h : p.Inherits c v) : v ∈ s.get c.name := by
  obtain ⟨a, ha, hbinds, hreach⟩ := h
  have hstep : ∀ {a b}, p.Encloses a b → v ∈ s.get a.name ∨ a.boundVariable? = some v →
      v ∈ s.get b.name := by
    intro a b hab hv
    have hb : b.name ∈ s.names := hs ▸ List.mem_map_of_mem hab.right
    exact hsettled _ (List.mem_map_of_mem hab.left) _
      ((encloses_iff hab.left hab.right).mp hab) hb hv
  -- along the way from the binder, whose first step hands on the variable that it binds
  induction hreach with
  | single hab => exact hstep hab (.inr (Contract.boundVariable?_eq_some_iff.mpr hbinds))
  | tail _ hbc ih => exact hstep hbc (.inl ih)

/-! ### The scopes that passes end with -/

lemma Settles.names_eq (h : p.Settles s s') : s'.names = s.names := by
  induction h with
  | stop => rfl
  | again _ _ _ ih => rw [ih, Link.names_pass]

lemma Settles.sound (hp : p.Coherent) (h : p.Settles s s') (hs : p.Sound s) : p.Sound s' := by
  induction h with
  | stop => exact hs
  | again hls _ _ ih => exact ih (hs.pass hp hls)

lemma Settles.settledFor (h : p.Settles s s') (v : Bytes) : Link.SettledFor p.links s' v := by
  induction h with
  | stop hls h => exact Link.settledFor_of_pass_eq_self hls.covers h
  | again _ _ _ ih => exact ih

lemma Settles.mem_get_iff (hp : p.Coherent) (h : p.Settles p.noScopes s) (hc : c ∈ p.contracts) :
    v ∈ s.get c.name ↔ p.Inherits c v := by
  constructor
  · intro hv
    obtain ⟨c', hc', hname, hv⟩ := h.sound hp p.sound_noScopes _ _ hv
    rwa [hp.eq_of_name_eq hc' hc hname] at hv
  · exact mem_get_of_inherits (h.names_eq.trans p.names_noScopes) (h.settledFor v)

/-- Passes in the order of the contracts are one way to settle. -/
lemma settles_settle {bound : Nat} (h : Link.pass p.links (Link.settle p.links bound s) =
    Link.settle p.links bound s) : p.Settles s (Link.settle p.links bound s) := by
  induction bound generalizing s with
  | zero => exact .stop p.sweep_links h
  | succ bound ih =>
    simp only [Link.settle] at h ⊢
    split at h
    · next hstop => rw [if_pos hstop]; exact .stop p.sweep_links hstop
    · next hagain => rw [if_neg hagain]; exact .again p.sweep_links hagain (ih h)

lemma settles_inheritedScopes (hp : p.Coherent) : p.Settles p.noScopes p.inheritedScopes := by
  apply settles_settle
  apply Link.pass_settle
  · rw [names_noScopes]
    exact hp.contractNames
  · rw [names_noScopes, List.length_map]
    exact Nat.le_succ _

lemma mem_get_inheritedScopes (hp : p.Coherent) (hc : c ∈ p.contracts) :
    v ∈ p.inheritedScopes.get c.name ↔ p.Inherits c v :=
  (settles_inheritedScopes hp).mem_get_iff hp hc

/-- After as many passes as there are contracts, in whatever orders, no pass changes anything. -/
lemma pass_passes_eq_self (hp : p.Coherent) {lss : List (List Link)} (hlss : ∀ ls ∈ lss, p.Sweep ls)
    (hlen : p.contracts.length ≤ lss.length) (hls : p.Sweep ls) :
    Link.pass ls (Link.passes lss p.noScopes) = Link.passes lss p.noScopes := by
  refine Link.pass_eq_self ?_ fun v => hls.covered.settledFor ?_
  · rw [Link.names_passes, names_noScopes]
    exact hp.contractNames
  · refine Link.settledFor_passes (fun ls hls => ⟨(hlss ls hls).covered, (hlss ls hls).covers⟩) ?_
    rwa [names_noScopes, List.length_map]

/-- The variables that a contract inherits are those of the quantifiers that reach it. In whatever
orders passes are made, they come to an end, and they end with the same variables. -/
theorem mem_inheritedScopes_iff (hp : p.WellFormed) :
    (∀ c ∈ p.contracts, ∀ v, v ∈ p.inheritedScopes.get c.name ↔ p.Inherits c v) ∧
    p.Settles p.noScopes p.inheritedScopes ∧
    (∀ s, p.Settles p.noScopes s → ∀ c ∈ p.contracts, ∀ v, v ∈ s.get c.name ↔ p.Inherits c v) ∧
    ∀ lss : List (List Link), (∀ ls ∈ lss, p.Sweep ls) → p.contracts.length ≤ lss.length →
      ∀ ls, p.Sweep ls →
        Link.pass ls (Link.passes lss p.noScopes) = Link.passes lss p.noScopes := by
  have hsettles := settles_inheritedScopes hp.toCoherent
  refine ⟨fun c hc v => hsettles.mem_get_iff hp.toCoherent hc, hsettles,
    fun s hs c hc v => hs.mem_get_iff hp.toCoherent hc, ?_⟩
  exact fun lss hlss hlen ls hls => pass_passes_eq_self hp.toCoherent hlss hlen hls

/-- Two contracts that enclose each other; the second one, which binds nothing, calls itself. -/
def circle : Predicate where
  name := [0x70]
  inputDefs := []
  contracts := [
    { name := [0x41], origin := [], connective := .forAll, inputDefs := []
      inputs := [.placeholder [0x63], .placeholder [0x76], .placeholder [0x42]] },
    { name := [0x42], origin := [], connective := .or, inputDefs := []
      inputs := [.placeholder [0x41], .proposition { call := .atomic [0x42] }] }]
  entryPoint := [0x41]

lemma circle_wellFormed : circle.WellFormed where
  contractNames := by decide
  constantNames := by decide
  entryPoint := by decide
  contracts := by
    simp only [circle, List.forall_mem_cons]
    exact ⟨.quantifier rfl _ _ _, .junction rfl (by decide), fun _ h => by cases h⟩

theorem mem_inheritedScopes_circle :
    circle.WellFormed ∧ [0x76] ∈ circle.inheritedScopes.get [0x41] := by
  refine ⟨circle_wellFormed, ?_⟩
  have ha : circle.contracts[0] ∈ circle.contracts := List.getElem_mem _
  have hb : circle.contracts[1] ∈ circle.contracts := List.getElem_mem _
  -- each of the two contracts encloses the other, so the binder encloses itself
  have hab : circle.Encloses circle.contracts[0] circle.contracts[1] :=
    ⟨ha, hb, 2, _, ⟨rfl, fun _ => rfl⟩, .placeholder _⟩
  have hba : circle.Encloses circle.contracts[1] circle.contracts[0] :=
    ⟨hb, ha, 0, _, ⟨rfl, fun h => by cases h⟩, .placeholder _⟩
  have hinherits : circle.Inherits circle.contracts[0] [0x76] :=
    ⟨_, ha, ⟨rfl, rfl⟩, .tail (.single hab) hba⟩
  exact ((mem_inheritedScopes_iff circle_wellFormed).1 _ ha _).mpr hinherits

end Predicate

end Clausal
