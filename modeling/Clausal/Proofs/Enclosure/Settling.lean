import Clausal.Proofs.Enclosure.Reachability
import Mathlib.Data.Nat.Find

/-!
# How many passes settle a predicate

Passes can be made with a mark that says whether any contract has come to see more variables, so
that no two tables have to be compared. The mark of a pass is set exactly if the pass changes
something. In whatever orders passes are made, one pass more than there are contracts is enough to
make one that leaves no mark, also where contracts enclose one another in circles.
-/

namespace Clausal

/-! ### Tables that grow -/

namespace Scopes

variable {s : Scopes} {n : Bytes} {ws : List Bytes}

/-- How many variables all contracts see together. -/
def total : Scopes → Nat
  | [] => 0
  | (_, vs) :: s => vs.length + total s

@[simp] lemma total_cons (k : Bytes) (vs : List Bytes) (s : Scopes) :
    total ((k, vs) :: s) = vs.length + s.total := rfl

lemma length_le_union (vs ws : List Bytes) : vs.length ≤ (union vs ws).length := by
  rw [union, List.length_append]
  exact Nat.le_add_right _ _

lemma length_lt_union {vs ws : List Bytes} (h : union vs ws ≠ vs) :
    vs.length < (union vs ws).length := by
  refine Nat.lt_of_le_of_ne (length_le_union vs ws) fun hlen => h ?_
  exact ((List.prefix_append vs _).eq_of_length hlen).symm

lemma total_le_extend (s : Scopes) (n : Bytes) (ws : List Bytes) :
    s.total ≤ (s.extend n ws).total := by
  induction s with
  | nil => exact Nat.le_refl _
  | cons p s ih =>
    obtain ⟨k, vs⟩ := p
    have hle := length_le_union vs ws
    rw [extend_cons, total_cons, total_cons]
    split <;> omega

/-- A listed contract that comes to see more variables adds to the total. -/
lemma total_lt_extend (hn : n ∈ s.names) (h : union (s.get n) ws ≠ s.get n) :
    s.total < (s.extend n ws).total := by
  -- on the table; only the entry of the name can have grown
  induction s with
  | nil => cases hn
  | cons p s ih =>
    obtain ⟨k, vs⟩ := p
    rw [get_cons] at h
    rw [extend_cons, total_cons, total_cons]
    by_cases hk : n = k
    · rw [if_pos hk] at h
      have hlt := length_lt_union h
      have hle := total_le_extend s n ws
      rw [if_pos hk.symm]
      omega
    · rw [if_neg hk] at h
      have hlt := ih ((List.mem_cons.mp hn).resolve_left hk) h
      rw [if_neg (Ne.symm hk)]
      omega

/-- A contract that sees no more variables leaves the table as it was. -/
lemma extend_eq_self_of_union (hs : s.names.Nodup) (h : union (s.get n) ws = s.get n) :
    s.extend n ws = s := by
  refine extend_eq_self hs fun _ w hw => ?_
  rw [← h]
  exact mem_union.mpr (.inr hw)

end Scopes

/-! ### Marks -/

namespace Link

variable {ls : List Link} {s : Scopes} {state : Scopes × Bool} {l : Link} {t : Bytes}
  {ws : List Bytes}

/-- Hands variables on to one contract, and leaves a mark if it sees more than before. -/
def handOn (ws : List Bytes) (state : Scopes × Bool) (t : Bytes) : Scopes × Bool :=
  if Scopes.union (state.1.get t) ws = state.1.get t then state else (state.1.extend t ws, true)

/-- Visits a link. A mark that is left stays. -/
def visitMarking (state : Scopes × Bool) (l : Link) : Scopes × Bool :=
  l.targets.foldl (handOn (Scopes.union (state.1.get l.source) l.binder.toList)) state

/-- Visits all links in turn and says whether any of the visits left a mark. -/
def passMarking (ls : List Link) (s : Scopes) : Scopes × Bool := ls.foldl visitMarking (s, false)

/-- A table that has grown from `s`, marked if it has changed. -/
structure GrownFrom (s : Scopes) (state : Scopes × Bool) : Prop where
  names : state.1.names = s.names
  lt_of_marked : state.2 = true → s.total < state.1.total
  eq_of_unmarked : state.2 = false → state.1 = s

namespace GrownFrom

lemma refl (s : Scopes) : GrownFrom s (s, false) where
  names := rfl
  lt_of_marked h := absurd h Bool.false_ne_true
  eq_of_unmarked _ := rfl

lemma le (h : GrownFrom s state) : s.total ≤ state.1.total := by
  cases hmark : state.2 with
  | true => exact Nat.le_of_lt (h.lt_of_marked hmark)
  | false => rw [h.eq_of_unmarked hmark]

/-- The mark is set exactly if the table has changed. -/
lemma marked_iff (h : GrownFrom s state) : state.2 = true ↔ state.1 ≠ s := by
  constructor
  · rintro hmark rfl
    exact Nat.lt_irrefl _ (h.lt_of_marked hmark)
  · intro hne
    by_contra hmark
    exact hne (h.eq_of_unmarked (Bool.not_eq_true _ ▸ hmark))

lemma handOn (h : GrownFrom s state) (ws : List Bytes) (hs : s.names.Nodup) (ht : t ∈ s.names) :
    GrownFrom s (Link.handOn ws state t) ∧
      (Link.handOn ws state t).1 = state.1.extend t ws := by
  rw [← h.names] at hs ht
  unfold Link.handOn
  split
  · next heq => exact ⟨h, (Scopes.extend_eq_self_of_union hs heq).symm⟩
  · next hne =>
    have hlt := Nat.lt_of_le_of_lt h.le (Scopes.total_lt_extend ht hne)
    refine ⟨⟨?_, fun _ => hlt, fun h => absurd h.symm Bool.false_ne_true⟩, rfl⟩
    exact (Scopes.names_extend ..).trans h.names

lemma foldl_handOn {ts : List Bytes} (h : GrownFrom s state) (hs : s.names.Nodup)
    (hts : ∀ t ∈ ts, t ∈ s.names) :
    GrownFrom s (ts.foldl (Link.handOn ws) state) ∧
      (ts.foldl (Link.handOn ws) state).1 = ts.foldl (fun s t => s.extend t ws) state.1 := by
  induction ts generalizing state with
  | nil => exact ⟨h, rfl⟩
  | cons t ts ih =>
    obtain ⟨ht, hts⟩ := List.forall_mem_cons.mp hts
    obtain ⟨hgrown, heq⟩ := h.handOn ws hs ht
    rw [List.foldl_cons, List.foldl_cons, ← heq]
    exact ih hgrown hts

lemma visitMarking (h : GrownFrom s state) (hs : s.names.Nodup)
    (hl : ∀ t ∈ l.targets, t ∈ s.names) :
    GrownFrom s (Link.visitMarking state l) ∧ (Link.visitMarking state l).1 = visit state.1 l :=
  h.foldl_handOn hs hl

lemma foldl_visitMarking (h : GrownFrom s state) (hs : s.names.Nodup)
    (hls : ∀ l ∈ ls, ∀ t ∈ l.targets, t ∈ s.names) :
    GrownFrom s (ls.foldl Link.visitMarking state) ∧
      (ls.foldl Link.visitMarking state).1 = pass ls state.1 := by
  induction ls generalizing state with
  | nil => exact ⟨h, rfl⟩
  | cons l ls ih =>
    obtain ⟨hl, hls⟩ := List.forall_mem_cons.mp hls
    obtain ⟨hgrown, heq⟩ := h.visitMarking hs hl
    obtain ⟨hgrown', heq'⟩ := ih hgrown hls
    exact ⟨hgrown', heq'.trans (congrArg (pass ls) heq)⟩

end GrownFrom

/-- A pass with marks is a pass, and its mark says whether it changes anything. -/
lemma passMarking_eq (hs : s.names.Nodup) (hls : ∀ l ∈ ls, ∀ t ∈ l.targets, t ∈ s.names) :
    passMarking ls s = (pass ls s, decide (pass ls s ≠ s)) := by
  obtain ⟨hgrown, heq⟩ : GrownFrom s (passMarking ls s) ∧ (passMarking ls s).1 = pass ls s :=
    (GrownFrom.refl s).foldl_visitMarking hs hls
  refine Prod.ext heq (Bool.eq_iff_iff.mpr ?_)
  rw [hgrown.marked_iff, heq, decide_eq_true_iff]

/-! ### Passes until one changes nothing -/

/-- Makes passes, each over links of its own, until one leaves no mark. The answer is the table that
is left and the number of passes made, or nothing if there is no such pass within the bound. -/
def settleMarking (orders : Nat → List Link) (s : Scopes) (made : Nat) :
    Nat → Option (Scopes × Nat)
  | 0 => none
  | bound + 1 =>
    match passMarking (orders made) s with
    | (s', true) => settleMarking orders s' (made + 1) bound
    | (s', false) => some (s', made + 1)

/-- The tables that the passes lead to. -/
def after (orders : Nat → List Link) (s : Scopes) : Nat → Scopes
  | 0 => s
  | i + 1 => pass (orders i) (after orders s i)

variable {orders : Nat → List Link} {i k : Nat}

lemma after_eq_passes (orders : Nat → List Link) (s : Scopes) (i : Nat) :
    after orders s i = passes ((List.range i).map orders) s := by
  induction i with
  | zero => rfl
  | succ i ih =>
    rw [after, ih, List.range_succ, List.map_append, passes, passes, List.foldl_append]
    rfl

@[simp] lemma names_after (orders : Nat → List Link) (s : Scopes) (i : Nat) :
    (after orders s i).names = s.names := by
  rw [after_eq_passes, names_passes]

/-- If the first pass that changes nothing is the one after `k` others, passes are made up to this
one and no further. -/
lemma settleMarking_after (hs : s.names.Nodup)
    (horders : ∀ i, ∀ l ∈ orders i, ∀ t ∈ l.targets, t ∈ s.names)
    (hlt : ∀ i < k, pass (orders i) (after orders s i) ≠ after orders s i)
    (hk : pass (orders k) (after orders s k) = after orders s k) (bound : Nat) (hi : i ≤ k) :
    settleMarking orders (after orders s i) i bound =
      if k < i + bound then some (after orders s k, k + 1) else none := by
  -- on the bound that is left for passes
  induction bound generalizing i with
  | zero => rw [settleMarking, if_neg (by omega)]
  | succ bound ih =>
    have hnodup : (after orders s i).names.Nodup := by rwa [names_after]
    have hlisted : ∀ l ∈ orders i, ∀ t ∈ l.targets, t ∈ (after orders s i).names := by
      rw [names_after]
      exact horders i
    have hpass := passMarking_eq hnodup hlisted
    rw [settleMarking, hpass]
    obtain hi | rfl := Nat.lt_or_eq_of_le hi
    · rw [decide_eq_true (hlt i hi), show i + (bound + 1) = i + 1 + bound by omega]
      exact ih hi
    · rw [decide_eq_false (not_not.mpr hk), if_pos (by omega), hk]

/-- Once a pass changes nothing, no further pass is made. -/
lemma settle_succ {links : List Link} {bound : Nat}
    (h : pass links (settle links bound s) = settle links bound s) :
    settle links (bound + 1) s = settle links bound s := by
  -- a settled table is left as it is, by one pass or by many
  induction bound generalizing s with
  | zero => exact if_pos h
  | succ bound ih =>
    rw [settle]
    simp only [settle] at h ⊢
    split
    · rfl
    · next hne =>
      rw [if_neg hne] at h
      exact ih h

end Link

namespace Predicate

variable {p : Predicate} {c : Contract} {orders : Nat → List Link} {i k : Nat} {n v : Bytes}

lemma Sweep.listed {ls : List Link} (hls : p.Sweep ls) :
    ∀ l ∈ ls, ∀ t ∈ l.targets, t ∈ p.noScopes.names := by
  intro l hl t ht
  obtain ⟨k, hk, -, -, htargets⟩ := hls.covered l hl
  obtain ⟨c, -, rfl⟩ := List.mem_map.mp hk
  rw [names_noScopes]
  exact (mem_enclosed_iff.mp (htargets t ht)).1

/-- The scopes after so many passes, each in an order of its own. -/
def scopesAfter (p : Predicate) (orders : Nat → List Link) (i : Nat) : Scopes :=
  Link.after orders p.noScopes i

lemma scopesAfter_succ (p : Predicate) (orders : Nat → List Link) (i : Nat) :
    p.scopesAfter orders (i + 1) = Link.pass (orders i) (p.scopesAfter orders i) := rfl

lemma nodup_names_noScopes (hp : p.Coherent) : p.noScopes.names.Nodup := by
  rw [names_noScopes]
  exact hp.contractNames

/-- After as many passes as there are contracts, the next one changes nothing. -/
lemma pass_scopesAfter_eq_self (hp : p.Coherent) (horders : ∀ i, p.Sweep (orders i))
    (hi : p.contracts.length ≤ i) :
    Link.pass (orders i) (p.scopesAfter orders i) = p.scopesAfter orders i := by
  rw [scopesAfter, Link.after_eq_passes]
  refine pass_passes_eq_self hp ?_ (by simpa using hi) (horders i)
  simp only [List.mem_map, forall_exists_index, and_imp]
  rintro _ j - rfl
  exact horders j

/-- Behind a pass that changes nothing, no pass in any order changes anything. -/
lemma scopesAfter_eq (hp : p.Coherent) (horders : ∀ i, p.Sweep (orders i))
    (hk : Link.pass (orders k) (p.scopesAfter orders k) = p.scopesAfter orders k) (hi : k ≤ i) :
    p.scopesAfter orders i = p.scopesAfter orders k := by
  have hsettled (v : Bytes) : Link.SettledFor p.links (p.scopesAfter orders k) v :=
    Link.settledFor_of_pass_eq_self (horders k).covers hk
  induction i, hi using Nat.le_induction with
  | base => rfl
  | succ i hi ih =>
    rw [scopesAfter_succ, ih]
    refine Link.pass_eq_self ?_ fun v => (horders i).covered.settledFor (hsettled v)
    rw [scopesAfter, Link.names_after]
    exact nodup_names_noScopes hp

lemma sound_scopesAfter (hp : p.Coherent) (horders : ∀ i, p.Sweep (orders i)) (i : Nat) :
    p.Sound (p.scopesAfter orders i) := by
  induction i with
  | zero => exact p.sound_noScopes
  | succ i ih => exact ih.pass hp (horders i)

/-- After as many passes as there are contracts, everybody sees what is inherited. -/
lemma mem_get_scopesAfter (hp : p.Coherent) (horders : ∀ i, p.Sweep (orders i))
    (hi : p.contracts.length ≤ i) (hc : c ∈ p.contracts) :
    v ∈ (p.scopesAfter orders i).get c.name ↔ p.Inherits c v := by
  constructor
  · intro hv
    obtain ⟨c', hc', hname, hv⟩ := sound_scopesAfter hp horders i _ _ hv
    rwa [hp.eq_of_name_eq hc' hc hname] at hv
  · refine mem_get_of_inherits ((Link.names_after ..).trans p.names_noScopes) ?_
    exact Link.settledFor_of_pass_eq_self (horders i).covers
      (pass_scopesAfter_eq_self hp horders hi)

lemma settle_eq_inheritedScopes (hp : p.Coherent) {bound : Nat}
    (hbound : p.contracts.length ≤ bound) :
    Link.settle p.links bound p.noScopes = p.inheritedScopes := by
  have hsucc (bound : Nat) (h : p.contracts.length ≤ bound) :
      Link.settle p.links (bound + 1) p.noScopes = Link.settle p.links bound p.noScopes := by
    refine Link.settle_succ (Link.pass_settle (nodup_names_noScopes hp) ?_)
    rwa [names_noScopes, List.length_map]
  induction bound, hbound using Nat.le_induction with
  | base => exact (hsucc _ (Nat.le_refl _)).symm
  | succ bound hbound ih => rw [hsucc bound hbound, ih]

/-- In whatever orders the contracts and the contracts that each encloses are visited, passes come
to an end: at the latest the pass after as many as there are contracts changes nothing and is the
last. No pass takes a variable away, and the passes end with the inherited variables. -/
theorem settleMarking_scopesAfter (hp : p.WellFormed) (orders : Nat → List Link)
    (horders : ∀ i, p.Sweep (orders i)) :
    (∃ k ≤ p.contracts.length,
      (∀ bound, Link.settleMarking orders p.noScopes 0 bound =
        if k < bound then some (p.scopesAfter orders k, k + 1) else none) ∧
      ∀ i, k ≤ i → p.scopesAfter orders i = p.scopesAfter orders k) ∧
    (∀ i n v, v ∈ (p.scopesAfter orders i).get n → v ∈ (p.scopesAfter orders (i + 1)).get n) ∧
    (∀ i, p.contracts.length ≤ i → ∀ c ∈ p.contracts, ∀ v,
      v ∈ (p.scopesAfter orders i).get c.name ↔ v ∈ p.inheritedScopes.get c.name) ∧
    ∀ bound, p.contracts.length ≤ bound →
      Link.settle p.links bound p.noScopes = p.inheritedScopes := by
  have hcoherent := hp.toCoherent
  refine ⟨?_, fun i n v hv => Link.mem_get_pass hv, fun i hi c hc v => ?_,
    fun bound => settle_eq_inheritedScopes hcoherent⟩
  -- the loop stops after the first pass that changes nothing
  · have hstops : ∃ k, Link.pass (orders k) (p.scopesAfter orders k) = p.scopesAfter orders k :=
      ⟨_, pass_scopesAfter_eq_self hcoherent horders (Nat.le_refl _)⟩
    refine ⟨Nat.find hstops, Nat.find_min' hstops ?_, fun bound => ?_, fun i => ?_⟩
    · exact pass_scopesAfter_eq_self hcoherent horders (Nat.le_refl _)
    · have h := Link.settleMarking_after (nodup_names_noScopes hcoherent)
        (fun i => (horders i).listed) (fun i hi => Nat.find_min hstops hi)
        (Nat.find_spec hstops) bound (Nat.zero_le _)
      rwa [Nat.zero_add] at h
    · exact scopesAfter_eq hcoherent horders (Nat.find_spec hstops)
  · rw [mem_get_scopesAfter hcoherent horders hi hc, mem_get_inheritedScopes hcoherent hc]

/-- Against the direction in which the variable travels, two contracts that enclose each other take
all three passes. -/
theorem settleMarking_circle :
    circle.WellFormed ∧ (∀ _ : Nat, circle.Sweep circle.links.reverse) ∧
    Link.settleMarking (fun _ => circle.links.reverse) circle.noScopes 0 2 = none ∧
    Link.settleMarking (fun _ => circle.links.reverse) circle.noScopes 0 3 =
      some (circle.scopesAfter (fun _ => circle.links.reverse) 2, 3) := by
  have horders : ∀ _ : Nat, circle.Sweep circle.links.reverse :=
    fun _ => ⟨circle.enclosed, fun _ _ => .refl _, List.reverse_perm _⟩
  obtain ⟨⟨k, hk, hloop, -⟩, -⟩ := settleMarking_scopesAfter circle_wellFormed _ horders
  have htwo : Link.settleMarking (fun _ => circle.links.reverse) circle.noScopes 0 2 = none := by
    decide +kernel
  have hle : ¬ k < 2 := by
    intro hlt
    rw [hloop, if_pos hlt] at htwo
    cases htwo
  obtain rfl : k = 2 := Nat.le_antisymm hk (Nat.not_lt.mp hle)
  exact ⟨circle_wellFormed, horders, htwo, hloop 3⟩

end Predicate

end Clausal
