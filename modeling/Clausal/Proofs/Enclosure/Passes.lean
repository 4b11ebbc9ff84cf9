import Clausal.Enclosure
import Mathlib.Data.Finset.Card
import Mathlib.Data.Finset.Filter

/-!
# Passes over links

A pass hands variables on along links and never takes one away. For one variable there are two
possibilities: the pass shows it to a contract that did not see it before, or every link already
keeps what it hands on. The first can happen only as often as there are contracts, so that many
passes settle all variables, in whatever order each of them visits the links.
-/

namespace Clausal

namespace Scopes

variable {s : Scopes} {n m v : Bytes} {vs ws : List Bytes}

/-- The contracts that are listed. -/
def names (s : Scopes) : List Bytes := s.map Prod.fst

@[simp] lemma mem_union : v ∈ union vs ws ↔ v ∈ vs ∨ v ∈ ws := by
  simp only [union, List.mem_append, List.mem_filter, List.contains_eq_mem, Bool.not_eq_true',
    decide_eq_false_iff_not]
  tauto

lemma union_eq_left (h : ∀ w ∈ ws, w ∈ vs) : union vs ws = vs := by
  have hfilter : ws.filter (fun w => !vs.contains w) = [] := by
    simpa [List.filter_eq_nil_iff] using h
  rw [union, hfilter, List.append_nil]

@[simp] lemma names_cons (p : Bytes × List Bytes) (s : Scopes) : names (p :: s) = p.1 :: s.names :=
  rfl

lemma get_cons (k : Bytes) (vs : List Bytes) (s : Scopes) (n : Bytes) :
    get ((k, vs) :: s) n = if n = k then vs else s.get n := by
  by_cases h : n = k
  · simp [get, h]
  · simp [get, List.lookup_cons, beq_false_of_ne h, h]

lemma extend_cons (k : Bytes) (vs : List Bytes) (s : Scopes) (n : Bytes) (ws : List Bytes) :
    extend ((k, vs) :: s) n ws = (k, if k = n then union vs ws else vs) :: s.extend n ws := by
  by_cases h : k = n <;> simp [extend, h]

lemma mem_names_of_mem_get (h : v ∈ s.get n) : n ∈ s.names := by
  induction s with
  | nil => simp [get] at h
  | cons p s ih =>
    rw [get_cons] at h
    rw [names_cons, List.mem_cons]
    split at h
    · next hn => exact .inl hn
    · exact .inr (ih h)

lemma get_eq_of_mem (hs : s.names.Nodup) (h : (n, vs) ∈ s) : s.get n = vs := by
  induction s with
  | nil => simp at h
  | cons p s ih =>
    rw [names_cons, List.nodup_cons] at hs
    rw [get_cons]
    rcases List.mem_cons.mp h with rfl | h
    · exact if_pos rfl
    · have hne : n ≠ p.1 := fun hn => hs.1 (hn ▸ List.mem_map_of_mem (f := Prod.fst) h)
      rw [if_neg hne]
      exact ih hs.2 h

/-! ### What one contract sees more -/

@[simp] lemma names_extend (s : Scopes) (n : Bytes) (ws : List Bytes) :
    (s.extend n ws).names = s.names := by
  induction s with
  | nil => rfl
  | cons p s ih => rw [extend_cons, names_cons, ih, names_cons]

lemma mem_get_extend :
    v ∈ (s.extend n ws).get m ↔ v ∈ s.get m ∨ m = n ∧ m ∈ s.names ∧ v ∈ ws := by
  induction s with
  | nil => simp [extend, names, get]
  | cons p s ih =>
    rw [extend_cons, get_cons, get_cons, names_cons, List.mem_cons]
    by_cases hm : m = p.1
    · by_cases hn : p.1 = n <;> simp [hm, hn]
    · simp [hm, ih]

lemma extend_eq_self (hs : s.names.Nodup) (h : n ∈ s.names → ∀ w ∈ ws, w ∈ s.get n) :
    s.extend n ws = s := by
  -- every entry stays as it is: those of other names are not touched, and to the one of this name
  -- nothing new is added
  have hentry : ∀ p ∈ s, (if p.1 == n then (p.1, union p.2 ws) else (p.1, p.2)) = p := by
    rintro ⟨k, vs⟩ hp
    split
    · next hk =>
      obtain rfl := beq_iff_eq.mp hk
      have hvs : ∀ w ∈ ws, w ∈ vs := by
        rw [← get_eq_of_mem hs hp]
        exact h (List.mem_map_of_mem (f := Prod.fst) hp)
      rw [union_eq_left hvs]
    · rfl
  exact (List.map_congr_left hentry).trans (List.map_id' s)

/-- The contracts that see a variable. -/
def viewers (s : Scopes) (v : Bytes) : Finset Bytes := s.names.toFinset.filter fun n => v ∈ s.get n

@[simp] lemma mem_viewers : n ∈ s.viewers v ↔ v ∈ s.get n := by
  simp only [viewers, Finset.mem_filter, List.mem_toFinset, and_iff_right_iff_imp]
  exact mem_names_of_mem_get

end Scopes

namespace Link

open Scopes (mem_get_extend)

variable {links ls : List Link} {s : Scopes} {l : Link} {n t v : Bytes}

/-! ### One link -/

lemma mem_get_foldl_extend {ts ws : List Bytes} :
    v ∈ (ts.foldl (fun s t => s.extend t ws) s).get n ↔
      v ∈ s.get n ∨ n ∈ ts ∧ n ∈ s.names ∧ v ∈ ws := by
  induction ts generalizing s with
  | nil => simp
  | cons t ts ih =>
    rw [List.foldl_cons, ih, mem_get_extend, Scopes.names_extend, List.mem_cons]
    tauto

@[simp] lemma names_visit (s : Scopes) (l : Link) : (visit s l).names = s.names := by
  -- on the targets, for any scopes, since each target is visited with those before it already
  -- extended
  have h : ∀ (ts ws : List Bytes) (s : Scopes),
      (ts.foldl (fun s t => s.extend t ws) s).names = s.names := by
    intro ts ws
    induction ts with
    | nil => exact fun _ => rfl
    | cons t ts ih => exact fun s => (ih _).trans (Scopes.names_extend ..)
  exact h ..

/-- What a link hands on: what its source sees, and what it binds. -/
def Exports (s : Scopes) (l : Link) (v : Bytes) : Prop := v ∈ s.get l.source ∨ l.binder = some v

/-- A visit adds what the source exported before it, and nothing else. -/
lemma mem_get_visit :
    v ∈ (visit s l).get n ↔ v ∈ s.get n ∨ n ∈ l.targets ∧ n ∈ s.names ∧ l.Exports s v := by
  have hexported : v ∈ Scopes.union (s.get l.source) l.binder.toList ↔ l.Exports s v := by
    rw [Scopes.mem_union, Option.mem_toList, Exports]
  rw [← hexported]
  exact mem_get_foldl_extend

lemma visit_eq_self (hs : s.names.Nodup)
    (h : ∀ t ∈ l.targets, t ∈ s.names → ∀ v, l.Exports s v → v ∈ s.get t) : visit s l = s := by
  -- what is handed on is read off the scopes before the visit, so it is fixed along the targets
  have hextend : ∀ ts : List Bytes, (∀ t ∈ ts, t ∈ l.targets) → ts.foldl (fun s' t =>
      s'.extend t (Scopes.union (s.get l.source) l.binder.toList)) s = s := by
    intro ts hts
    induction ts with
    | nil => rfl
    | cons t ts ih =>
      obtain ⟨ht, hts⟩ := List.forall_mem_cons.mp hts
      rw [List.foldl_cons, Scopes.extend_eq_self hs, ih hts]
      intro hlisted w hw
      rw [Scopes.mem_union, Option.mem_toList] at hw
      exact h t ht hlisted w hw
  exact hextend l.targets fun _ ht => ht

/-! ### One pass -/

@[simp] lemma pass_cons (l : Link) (ls : List Link) (s : Scopes) :
    pass (l :: ls) s = pass ls (visit s l) := rfl

@[simp] lemma names_pass (ls : List Link) (s : Scopes) : (pass ls s).names = s.names := by
  induction ls generalizing s with
  | nil => rfl
  | cons l ls ih => rw [pass_cons, ih, names_visit]

/-- A pass takes nothing away. -/
lemma mem_get_pass (h : v ∈ s.get n) : v ∈ (pass ls s).get n := by
  induction ls generalizing s with
  | nil => exact h
  | cons l ls ih => exact ih (mem_get_visit.mpr (.inl h))

/-- What a link exports before a pass its targets see after it. -/
lemma mem_get_pass_of_exports (hl : l ∈ ls) (ht : t ∈ l.targets) (hlisted : t ∈ s.names)
    (h : l.Exports s v) : v ∈ (pass ls s).get t := by
  induction ls generalizing s with
  | nil => simp at hl
  | cons k ls ih =>
    rw [pass_cons]
    rcases List.mem_cons.mp hl with rfl | hl
    · exact mem_get_pass (mem_get_visit.mpr (.inr ⟨ht, hlisted, h⟩))
    · refine ih hl (by rwa [names_visit]) ?_
      -- visiting the links in between loses nothing that the source hands on
      exact h.imp (fun h => mem_get_visit.mpr (.inl h)) id

/-- What holds of the contracts that see a variable, and is handed on along links, holds of those
that see it after a pass. -/
lemma pass_induction {R : Bytes → Prop} (hs : ∀ n, v ∈ s.get n → R n)
    (hR : ∀ l ∈ ls, ∀ t ∈ l.targets, t ∈ s.names → R l.source ∨ l.binder = some v → R t)
    (h : v ∈ (pass ls s).get n) : R n := by
  -- on the links; `R` holds of whoever sees `v` after each of them
  induction ls generalizing s with
  | nil => exact hs n h
  | cons l ls ih =>
    obtain ⟨hl, hls⟩ := List.forall_mem_cons.mp hR
    refine ih (fun m hm => ?_) (by simpa using hls) h
    rcases mem_get_visit.mp hm with hm | ⟨ht, hlisted, hexports⟩
    · exact hs m hm
    · exact hl m ht hlisted (hexports.imp (hs _) id)

/-! ### Settled variables -/

/-- Every link already keeps what it hands on of a variable. -/
def SettledFor (links : List Link) (s : Scopes) (v : Bytes) : Prop :=
  ∀ l ∈ links, ∀ t ∈ l.targets, t ∈ s.names → l.Exports s v → v ∈ s.get t

/-- The links of one list are, as far as they go, among those of the other. -/
def Covered (ls links : List Link) : Prop :=
  ∀ l ∈ ls, ∃ k ∈ links, k.source = l.source ∧ k.binder = l.binder ∧ ∀ t ∈ l.targets, t ∈ k.targets

lemma Covered.settledFor (hcov : Covered ls links) (h : SettledFor links s v) :
    SettledFor ls s v := by
  intro l hl t ht hlisted hexports
  obtain ⟨k, hk, hsource, hbinder, htargets⟩ := hcov l hl
  refine h k hk t (htargets t ht) hlisted ?_
  rwa [Exports, hsource, hbinder]

lemma SettledFor.mem_get_pass_iff (h : SettledFor ls s v) :
    v ∈ (pass ls s).get n ↔ v ∈ s.get n :=
  ⟨pass_induction (fun _ hn => hn) h, mem_get_pass⟩

lemma SettledFor.pass (h : SettledFor links s v) (hcov : Covered ls links) :
    SettledFor links (pass ls s) v := by
  intro l hl t ht hlisted hexports
  rw [names_pass] at hlisted
  rw [Exports, (hcov.settledFor h).mem_get_pass_iff] at hexports
  exact mem_get_pass (h l hl t ht hlisted hexports)

/-- A pass that shows a variable to nobody new has settled it. -/
lemma settledFor_of_pass (hcov : Covered links ls)
    (h : ∀ n, v ∈ (Link.pass ls s).get n → v ∈ s.get n) : SettledFor links s v := by
  refine hcov.settledFor fun l hl t ht hlisted hexports => ?_
  exact h t (mem_get_pass_of_exports hl ht hlisted hexports)

lemma settledFor_of_pass_eq_self (hcov : Covered links ls) (h : Link.pass ls s = s) :
    SettledFor links s v :=
  settledFor_of_pass hcov fun n hn => by rwa [h] at hn

/-- Where all variables are settled, a pass changes nothing at all. -/
lemma pass_eq_self (hs : s.names.Nodup) (h : ∀ v, SettledFor ls s v) : Link.pass ls s = s := by
  induction ls with
  | nil => rfl
  | cons l ls ih =>
    rw [pass_cons, visit_eq_self hs, ih]
    · exact fun v k hk => h v k (List.mem_cons_of_mem l hk)
    · exact fun t ht hlisted v hexports => h v l List.mem_cons_self t ht hlisted hexports

lemma card_viewers_lt (hcov : Covered links ls) (h : ¬ SettledFor links s v) :
    (s.viewers v).card < ((Link.pass ls s).viewers v).card := by
  refine Finset.card_lt_card ⟨fun n hn => ?_, fun hsub => h ?_⟩
  · rw [Scopes.mem_viewers] at hn ⊢
    exact mem_get_pass hn
  · refine settledFor_of_pass hcov fun n hn => ?_
    exact Scopes.mem_viewers.mp (hsub (Scopes.mem_viewers.mpr hn))

/-- A variable that everybody sees is settled. -/
lemma settledFor_of_card (h : s.names.length ≤ (s.viewers v).card) : SettledFor links s v := by
  intro l _ t _ hlisted _
  have hall : s.viewers v = s.names.toFinset :=
    Finset.eq_of_subset_of_card_le (Finset.filter_subset _ _)
      ((List.toFinset_card_le _).trans h)
  rw [← Scopes.mem_viewers, hall, List.mem_toFinset]
  exact hlisted

/-! ### Many passes -/

/-- Passes in a row, each over links of its own. -/
def passes (lss : List (List Link)) (s : Scopes) : Scopes :=
  lss.foldl (fun s ls => Link.pass ls s) s

@[simp] lemma passes_cons (ls : List Link) (lss : List (List Link)) (s : Scopes) :
    passes (ls :: lss) s = passes lss (Link.pass ls s) := rfl

@[simp] lemma names_passes (lss : List (List Link)) (s : Scopes) :
    (passes lss s).names = s.names := by
  induction lss generalizing s with
  | nil => rfl
  | cons ls lss ih => rw [passes_cons, ih, names_pass]

lemma SettledFor.passes {lss : List (List Link)} (h : SettledFor links s v)
    (hcov : ∀ ls ∈ lss, Covered ls links) : SettledFor links (Link.passes lss s) v := by
  induction lss generalizing s with
  | nil => exact h
  | cons ls lss ih =>
    obtain ⟨hls, hlss⟩ := List.forall_mem_cons.mp hcov
    exact ih (h.pass hls) hlss

/-- Until a variable is settled, each pass shows it to one contract more. -/
lemma settledFor_or_le_card {lss : List (List Link)}
    (hcov : ∀ ls ∈ lss, Covered ls links ∧ Covered links ls) :
    SettledFor links (passes lss s) v ∨
      (s.viewers v).card + lss.length ≤ ((passes lss s).viewers v).card := by
  induction lss generalizing s with
  | nil => exact .inr (Nat.le_refl _)
  | cons ls lss ih =>
    obtain ⟨⟨hls, hlinks⟩, hlss⟩ := List.forall_mem_cons.mp hcov
    -- either the first pass finds `v` at rest, and all later ones do, or it adds a viewer
    by_cases hv : SettledFor links s v
    · exact .inl (hv.passes fun ls hls => (hcov ls hls).1)
    · have hlt := card_viewers_lt hlinks hv
      rw [passes_cons, List.length_cons]
      exact (ih hlss).imp id fun hle => by omega

/-- As many passes as there are contracts settle every variable. -/
lemma settledFor_passes {lss : List (List Link)}
    (hcov : ∀ ls ∈ lss, Covered ls links ∧ Covered links ls) (hlen : s.names.length ≤ lss.length) :
    SettledFor links (passes lss s) v := by
  rcases settledFor_or_le_card (s := s) (v := v) hcov with h | h
  · exact h
  · refine settledFor_of_card ?_
    rw [names_passes]
    omega

lemma Covered.refl (ls : List Link) : Covered ls ls :=
  fun l hl => ⟨l, hl, rfl, rfl, fun _ ht => ht⟩

/-- Settling either reaches a pass that changes nothing or makes all passes it may make. -/
lemma pass_settle_or (links : List Link) (bound : Nat) (s : Scopes) :
    Link.pass links (settle links bound s) = settle links bound s ∨
      settle links bound s = passes (List.replicate bound links) s := by
  -- on the bound, for any scopes, since each pass starts from what the last one left
  induction bound generalizing s with
  | zero => exact .inr rfl
  | succ bound ih =>
    simp only [settle]
    split
    · next h => exact .inl h
    · exact ih _

/-- With as many passes as there are contracts settling ends where a pass changes nothing. -/
lemma pass_settle {bound : Nat} (hs : s.names.Nodup) (hbound : s.names.length ≤ bound) :
    Link.pass links (settle links bound s) = settle links bound s := by
  rcases pass_settle_or links bound s with h | h
  · exact h
  · rw [h]
    refine pass_eq_self (by rwa [names_passes]) fun v => ?_
    refine settledFor_passes (fun ls hls => ?_) (by rwa [List.length_replicate])
    obtain rfl := List.eq_of_mem_replicate hls
    exact ⟨.refl _, .refl _⟩

end Link

end Clausal
