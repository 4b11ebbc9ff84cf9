import Clausal.Fault.Outcome
import Mathlib.Data.List.Forall2
import Mathlib.Tactic.Lemma

/-!
# Outcomes that succeed

An operation built from steps answers exactly when every step does. These equivalences take a
success apart step by step; failures are of no interest here.
-/

namespace Clausal.Outcome

variable {α β : Type}

lemma ok_eq_pure (a : α) : (.ok a : Outcome α) = pure a := rfl

lemma ok_bind (a : α) (f : α → Outcome β) : ((.ok a : Outcome α) >>= f) = f a := rfl

@[simp] lemma bind_eq_ok {x : Outcome α} {f : α → Outcome β} {b : β} :
    (x >>= f) = .ok b ↔ ∃ a, x = .ok a ∧ f a = .ok b := by
  cases x with
  | error e => simp [bind, Except.bind]
  | ok a => simp [bind, Except.bind]

@[simp] lemma pure_eq_ok {a b : α} : (pure a : Outcome α) = .ok b ↔ b = a := by
  simp [pure, Except.pure, eq_comm]

@[simp] lemma map_eq_ok {x : Outcome α} {f : α → β} {b : β} :
    (f <$> x) = .ok b ↔ ∃ a, x = .ok a ∧ b = f a := by
  cases x <;> simp [Functor.map, Except.map, eq_comm]

@[simp] lemma refuse_ne_ok {cause : Cause} {path : Path} {a : α} :
    refuse cause path ≠ .ok a := by
  simp [refuse]

@[simp] lemma refuseShowing_ne_ok {n : Int} {cause : Cause} {path : Path} {a : α} :
    refuseShowing n cause path ≠ .ok a := by
  unfold refuseShowing
  split <;> simp

lemma refuseShowing_of_lt {n : Int} {cause : Cause} {path : Path} (h : n.natAbs < integerLimit) :
    (refuseShowing n cause path : Outcome α) = refuse cause path := if_pos h

lemma refuseShowing_of_le {n : Int} {cause : Cause} {path : Path} (h : integerLimit ≤ n.natAbs) :
    (refuseShowing n cause path : Outcome α) = .error (.misuse .integerTooLong) :=
  if_neg (Nat.not_lt.mpr h)

/-! ### Lists -/

lemma mapM_eq_ok {f : α → Outcome β} {as : List α} {bs : List β} :
    as.mapM f = .ok bs ↔ List.Forall₂ (fun a b => f a = .ok b) as bs := by
  induction as generalizing bs with
  | nil => rw [List.mapM_nil, pure_eq_ok, List.forall₂_nil_left_iff]
  | cons a as ih =>
    rw [List.mapM_cons, List.forall₂_cons_left_iff]
    simp only [bind_eq_ok, pure_eq_ok, ih]
    constructor
    · rintro ⟨b, hb, bs', hbs, rfl⟩
      exact ⟨b, bs', hb, hbs, rfl⟩
    · rintro ⟨b, bs', hb, hbs, rfl⟩
      exact ⟨b, hb, bs', hbs, rfl⟩

/-- Items are converted one by one, if their places matter to failures only. -/
lemma mapM_zipIdx_eq_ok {f : α → Nat → Outcome β} {R : α → β → Prop} {as : List α} {bs : List β}
    (h : ∀ a i b, f a i = .ok b ↔ R a b) :
    (as.zipIdx.mapM fun (a, i) => f a i) = .ok bs ↔ List.Forall₂ R as bs := by
  rw [mapM_eq_ok]
  simp only [h]
  rw [← List.forall₂_map_left_iff (f := Prod.fst) (R := R), List.zipIdx_map_fst]

lemma forItems_eq_ok {f : α → Outcome β} {as : List α} {bs : List β} :
    forItems f as = .ok bs ↔ List.Forall₂ (fun a b => f a = .ok b) as bs :=
  mapM_zipIdx_eq_ok (f := fun a i => inItem i (f a)) fun _ _ _ => inItem_eq_ok

lemma exists_forall₂_iff {R : α → β → Prop} {as : List α} :
    (∃ bs, List.Forall₂ R as bs) ↔ ∀ a ∈ as, ∃ b, R a b := by
  induction as with
  | nil => simp
  | cons a as ih => simp [List.forall₂_cons_left_iff, ← ih]

lemma exists_mem_of_forall₂ {R : α → β → Prop} {as : List α} {bs : List β}
    (h : List.Forall₂ R as bs) {b : β} (hb : b ∈ bs) : ∃ a ∈ as, R a b := by
  induction h with
  | nil => cases hb
  | cons hab _ ih =>
    obtain rfl | hb := List.mem_cons.mp hb
    · exact ⟨_, List.mem_cons_self, hab⟩
    · obtain ⟨a, ha, hR⟩ := ih hb
      exact ⟨a, List.mem_cons_of_mem _ ha, hR⟩

lemma exists_getElem?_of_forall₂ {R : α → β → Prop} {as : List α} {bs : List β}
    (h : List.Forall₂ R as bs) {i : Nat} {b : β} (hb : bs[i]? = some b) :
    ∃ a, as[i]? = some a ∧ R a b := by
  obtain ⟨hi, rfl⟩ := List.getElem?_eq_some_iff.mp hb
  have hi' : i < as.length := h.length_eq.symm ▸ hi
  exact ⟨as[i], List.getElem?_eq_getElem hi', h.get hi' hi⟩

lemma exists_mapM_iff {f : α → Outcome β} {as : List α} :
    (∃ bs, as.mapM f = .ok bs) ↔ ∀ a ∈ as, ∃ b, f a = .ok b := by
  simp only [mapM_eq_ok, exists_forall₂_iff]

lemma exists_forItems_iff {f : α → Outcome β} {as : List α} :
    (∃ bs, forItems f as = .ok bs) ↔ ∀ a ∈ as, ∃ b, f a = .ok b := by
  simp only [forItems_eq_ok, exists_forall₂_iff]

/-- An operation that answers `g a` where `P a` holds, and nowhere else, answers for all items of a
list or for none. -/
lemma forItems_eq_ok_iff {f : α → Outcome β} {P : α → Prop} {g : α → β} {as : List α} {bs : List β}
    (h : ∀ a ∈ as, ∀ b, f a = .ok b ↔ P a ∧ b = g a) :
    forItems f as = .ok bs ↔ (∀ a ∈ as, P a) ∧ bs = as.map g := by
  rw [forItems_eq_ok]
  induction as generalizing bs with
  | nil => simp
  | cons a as ih =>
    obtain ⟨ha, has⟩ := List.forall_mem_cons.mp h
    rw [List.forall₂_cons_left_iff, List.forall_mem_cons, List.map_cons]
    simp only [ha, ih has]
    constructor
    · rintro ⟨_, _, ⟨hPa, rfl⟩, ⟨hPas, rfl⟩, rfl⟩
      exact ⟨⟨hPa, hPas⟩, rfl⟩
    · rintro ⟨⟨hPa, hPas⟩, rfl⟩
      exact ⟨_, _, ⟨hPa, rfl⟩, ⟨hPas, rfl⟩, rfl⟩

/-- A check of every item succeeds when no item fails it. -/
lemma forM_eq_ok {f : α → Outcome Unit} {as : List α} {u : Unit} :
    as.forM f = .ok u ↔ ∀ a ∈ as, f a = .ok () := by
  induction as with
  | nil => exact ⟨fun _ _ h => absurd h List.not_mem_nil, fun _ => rfl⟩
  | cons a as ih =>
    rw [List.forall_mem_cons, ← ih]
    change (f a >>= fun _ => as.forM f) = .ok u ↔ _
    simp only [bind_eq_ok]
    constructor
    · rintro ⟨_, ha, has⟩
      exact ⟨ha, has⟩
    · rintro ⟨ha, has⟩
      exact ⟨(), ha, has⟩

end Clausal.Outcome
