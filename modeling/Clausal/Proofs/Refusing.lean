import Clausal.Node
import Clausal.Proofs.Outcome

/-!
# Operations that fail

What is true of every failure of an operation follows the way the operation is built, like success
does. A failure of a part is seen from above with the steps that lead to the part in front.
-/

namespace Clausal

/-- A fault of one of the kinds, without a position. -/
def Failure.IsOf (kinds : List FaultKind) : Failure → Prop
  | fault f => f.cause.kind ∈ kinds ∧ f.position = none
  | misuse _ => False

@[simp] lemma Failure.isOf_under {kinds : List FaultKind} {steps : Path} {e : Failure} :
    (e.under steps).IsOf kinds ↔ e.IsOf kinds := by
  cases e <;> rfl

lemma Failure.under_under {steps steps' : Path} {e : Failure} :
    (e.under steps').under steps = e.under (steps ++ steps') := by
  cases e with
  | fault f => simp [under]
  | misuse m => rfl

lemma Failure.IsOf.mono {kinds kinds' : List FaultKind} {e : Failure} (he : e.IsOf kinds)
    (h : kinds ⊆ kinds') : e.IsOf kinds' := by
  cases e with
  | fault f => exact ⟨h he.1, he.2⟩
  | misuse m => exact he.elim

namespace Outcome

variable {α β : Type} {P Q : Failure → Prop} {x : Outcome α}

/-- Whatever failure the operation ends in satisfies `P`. -/
def FailsOnly (P : Failure → Prop) (x : Outcome α) : Prop := ∀ e, x = .error e → P e

namespace FailsOnly

lemma mono (hx : FailsOnly P x) (h : ∀ e, P e → Q e) : FailsOnly Q x :=
  fun e he => h e (hx e he)

lemma ok (a : α) : FailsOnly P (.ok a : Outcome α) := nofun

lemma refuse {cause : Cause} {path : Path} (h : P (.fault ⟨cause, path, none⟩)) :
    FailsOnly P (Clausal.refuse cause path : Outcome α) := by
  intro e he
  cases he
  exact h

/-- The second step fails only where the first has answered. -/
lemma bind {f : α → Outcome β} (hx : FailsOnly P x) (hf : ∀ a, x = .ok a → FailsOnly P (f a)) :
    FailsOnly P (x >>= f) := by
  cases x with
  | error e => exact fun _ he => hx _ (Except.error.inj he ▸ rfl)
  | ok a => exact hf a rfl

lemma map {f : α → β} (hx : FailsOnly P x) : FailsOnly P (x.map f) := by
  cases x with
  | error e => exact fun _ he => hx _ (Except.error.inj he ▸ rfl)
  | ok a => exact ok _

lemma below {steps : Path} (hx : FailsOnly (fun e => P (e.under steps)) x) :
    FailsOnly P (Clausal.below steps x) := by
  cases x with
  | error e =>
    intro e' he
    cases he
    exact hx e rfl
  | ok a => exact ok a

/-! ### Lists -/

lemma mapM {f : α → Outcome β} {as : List α} (hf : ∀ a ∈ as, FailsOnly P (f a)) :
    FailsOnly P (as.mapM f) := by
  induction as with
  | nil => exact ok []
  | cons a as ih =>
    rw [List.forall_mem_cons] at hf
    rw [List.mapM_cons]
    exact hf.1.bind fun b _ => (ih hf.2).bind fun bs _ => ok _

lemma forM {f : α → Outcome Unit} {as : List α} (hf : ∀ a ∈ as, FailsOnly P (f a)) :
    FailsOnly P (as.forM f) := by
  induction as with
  | nil => exact ok ()
  | cons a as ih =>
    rw [List.forall_mem_cons] at hf
    exact hf.1.bind fun _ _ => ih hf.2

/-- The failure of a list is that of one of its items, seen from the list. -/
lemma forItems {f : α → Outcome β} {as : List α}
    (hf : ∀ i a, as[i]? = some a → FailsOnly (fun e => P (e.under [.item i])) (f a)) :
    FailsOnly P (Clausal.forItems f as) := by
  apply mapM
  intro p hp
  exact below (hf p.2 p.1 (List.mk_mem_zipIdx_iff_getElem?.mp hp))

end FailsOnly

/-! ### First failures -/

lemma bind_eq_error {f : α → Outcome β} {e : Failure} :
    (x >>= f) = .error e ↔ x = .error e ∨ ∃ a, x = .ok a ∧ f a = .error e := by
  cases x <;> simp [bind, Except.bind]

lemma below_eq_error {steps : Path} {e : Failure} :
    Clausal.below steps x = .error e ↔ ∃ e', x = .error e' ∧ e = e'.under steps := by
  cases x <;> simp [Clausal.below, Except.mapError, eq_comm]

/-- The failure of a list is that of the first item that fails. -/
lemma exists_of_mapM_eq_error {f : α → Outcome β} {as : List α} {e : Failure}
    (h : as.mapM f = .error e) : ∃ (i : Nat) (a : α), as[i]? = some a ∧ f a = .error e ∧
      ∀ k < i, ∀ b, as[k]? = some b → ∃ c, f b = .ok c := by
  -- on the list: it fails at its head, or its head passes and the tail fails
  induction as with
  | nil => cases h
  | cons a as ih =>
    rw [List.mapM_cons] at h
    obtain ha | ⟨c, hc, h⟩ := bind_eq_error.mp h
    · exact ⟨0, a, rfl, ha, nofun⟩
    · obtain has | ⟨_, -, h⟩ := bind_eq_error.mp h
      · obtain ⟨i, b, hb, hfails, hbefore⟩ := ih has
        refine ⟨i + 1, b, hb, hfails, fun k hk d hd => ?_⟩
        cases k with
        | zero => exact ⟨c, Option.some.inj hd ▸ hc⟩
        | succ k => exact hbefore k (Nat.lt_of_succ_lt_succ hk) d hd
      · cases h

lemma exists_of_forItems_eq_error {f : α → Outcome β} {as : List α} {e : Failure}
    (h : forItems f as = .error e) : ∃ (i : Nat) (a : α) (e' : Failure), as[i]? = some a ∧
      f a = .error e' ∧ e = e'.under [.item i] ∧
      ∀ k < i, ∀ b, as[k]? = some b → ∃ c, f b = .ok c := by
  obtain ⟨i, _, hi, hfails, hbefore⟩ := exists_of_mapM_eq_error h
  rw [List.getElem?_zipIdx, Option.map_eq_some_iff] at hi
  obtain ⟨a, ha, rfl⟩ := hi
  rw [Nat.zero_add] at hfails
  obtain ⟨e', he', rfl⟩ := below_eq_error.mp hfails
  refine ⟨i, a, e', ha, he', rfl, fun k hk b hb => ?_⟩
  obtain ⟨c, hc⟩ := hbefore k hk (b, k) (by simp [List.getElem?_zipIdx, hb])
  exact ⟨c, inItem_eq_ok.mp hc⟩

end Outcome

/-! ### Checks -/

/-- A connective blames the inputs of a contract as a whole or one of them. -/
lemma Connective.failsOnly_shape (c : Connective) (es : List Entry) :
    (c.shape es).FailsOnly fun e => ∃ cause p, cause.kind = .malformedConnectiveArity ∧
      (p = [] ∨ ∃ i < es.length, p = [.item i]) ∧
      e = .fault ⟨cause, .field (Text.ofString "inputs") :: p, none⟩ := by
  unfold shape
  repeat' split
  all_goals first
    | exact .ok _
    | exact .below (.refuse ⟨_, [], rfl, .inl rfl, rfl⟩)
    | exact .below (.refuse ⟨_, [.item _], rfl, .inr ⟨_, by simp, rfl⟩, rfl⟩)

/-- Among the names of items the blame is on one that stands earlier as well. -/
lemma failsOnly_distinctNames (seen names : List Bytes) :
    (distinctNames seen names).FailsOnly fun e => ∃ i n, i < names.length ∧
      e = .fault ⟨.duplicateName n,
        [.item (seen.length + i), .field (Text.ofString "name")], none⟩ := by
  -- by the recursion: the names seen grow as the list shrinks, and so the index is the same
  fun_induction distinctNames seen names with
  | case1 => exact .ok ()
  | case2 seen n names h =>
    exact .below (.below (.refuse ⟨0, n, Nat.zero_lt_succ _, rfl⟩))
  | case3 seen n names h ih =>
    refine ih.mono ?_
    rintro _ ⟨i, m, hi, rfl⟩
    refine ⟨i + 1, m, Nat.succ_lt_succ hi, ?_⟩
    rw [List.length_append, List.length_singleton, Nat.add_assoc, Nat.add_comm 1]

end Clausal
