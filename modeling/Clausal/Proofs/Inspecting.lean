import Clausal.Proofs.Refusing

/-!
# Operations that inspect what they go through

Some operations look at things inside a value one after the other. They answer if everything that
they look at is in order, and fail at the first thing that is not. An operation that is built from
such operations is one of them: it looks at the things of its parts, as seen from the whole.
-/

namespace Clausal

/-- Things inside values, which are in order or are not, and the failures of operations that refuse
them. From above, a thing is seen with the steps that lead down to it in front. -/
structure Inspection (ι : Type) where
  InOrder : ι → Prop
  failure : ι → Failure
  under : Path → ι → ι
  inOrder_under (steps : Path) (i : ι) : InOrder (under steps i) ↔ InOrder i
  failure_under (steps : Path) (i : ι) : failure (under steps i) = (failure i).under steps

variable {ι α β : Type} {I : Inspection ι} {is ks : List ι} {x : Outcome α}

/-- The first thing of the list that is not in order. -/
def Inspection.IsFirst (I : Inspection ι) (is : List ι) (i : ι) : Prop :=
  ∃ before after, is = before ++ i :: after ∧ (∀ k ∈ before, I.InOrder k) ∧ ¬I.InOrder i

/-- The operation looks at the things in their order: it answers if all of them are in order, and
fails at the first that is not. -/
structure Outcome.Inspects (I : Inspection ι) (is : List ι) (x : Outcome α) : Prop where
  inOrder : ∀ a, x = .ok a → ∀ i ∈ is, I.InOrder i
  stops : ∀ e, x = .error e → ∃ i, I.IsFirst is i ∧ e = I.failure i

namespace Outcome.Inspects

lemma ok (a : α) : Inspects I [] (.ok a) := ⟨fun _ _ => List.forall_mem_nil _, nofun⟩

lemma of_inOrder {i : ι} (h : I.InOrder i) (a : α) : Inspects I [i] (.ok a) :=
  ⟨fun _ _ => List.forall_mem_singleton.mpr h, nofun⟩

lemma of_not_inOrder {i : ι} (h : ¬I.InOrder i) :
    Inspects I [i] (.error (I.failure i) : Outcome α) where
  inOrder := nofun
  stops _ he := ⟨i, ⟨[], [], rfl, List.forall_mem_nil _, h⟩, (Except.error.inj he).symm⟩

/-- The things of the second step are looked at if those of the first are all in order. -/
lemma bind {f : α → Outcome β} (hx : x.Inspects I is) (hf : ∀ a, (f a).Inspects I ks) :
    (x >>= f).Inspects I (is ++ ks) := by
  -- if the first part stops, what follows is not reached and stands after
  cases x with
  | error e =>
    refine ⟨nofun, ?_⟩
    rintro _ ⟨rfl⟩
    obtain ⟨i, ⟨before, after, rfl, hbefore, hi⟩, he⟩ := hx.stops e rfl
    exact ⟨i, ⟨before, after ++ ks, by simp, hbefore, hi⟩, he⟩
  -- if it does not, all its items are in order and stand before
  | ok a =>
    have hinOrder := hx.inOrder a rfl
    refine ⟨fun b hb => List.forall_mem_append.mpr ⟨hinOrder, (hf a).inOrder b hb⟩,
      fun e he => ?_⟩
    obtain ⟨i, ⟨before, after, rfl, hbefore, hi⟩, he⟩ := (hf a).stops e he
    exact ⟨i, ⟨is ++ before, after, by simp, List.forall_mem_append.mpr ⟨hinOrder, hbefore⟩, hi⟩,
      he⟩

/-- A last step that looks at nothing. -/
lemma bind_ok (hx : x.Inspects I is) (g : α → β) : (x >>= fun a => .ok (g a)).Inspects I is := by
  have := hx.bind fun a => ok (g a)
  rwa [List.append_nil] at this

lemma map (hx : x.Inspects I is) (g : α → β) : (g <$> x).Inspects I is := by
  rw [map_eq_pure_bind]
  exact hx.bind_ok g

lemma below {steps : Path} (hx : x.Inspects I is) :
    (Clausal.below steps x).Inspects I (is.map (I.under steps)) := by
  cases x with
  | ok a =>
    refine ⟨fun _ _ => List.forall_mem_map.mpr fun i hi => ?_, nofun⟩
    exact (I.inOrder_under steps i).mpr (hx.inOrder a rfl i hi)
  | error e =>
    refine ⟨nofun, ?_⟩
    rintro _ ⟨rfl⟩
    obtain ⟨i, ⟨before, after, rfl, hbefore, hi⟩, rfl⟩ := hx.stops e rfl
    refine ⟨I.under steps i, ⟨_, _, List.map_append, List.forall_mem_map.mpr fun k hk => ?_, ?_⟩,
      (I.failure_under steps i).symm⟩
    · exact (I.inOrder_under steps k).mpr (hbefore k hk)
    · exact mt (I.inOrder_under steps i).mp hi

lemma inField {name : String} (hx : x.Inspects I is) :
    (Clausal.inField name x).Inspects I (is.map (I.under [.field (Text.ofString name)])) := hx.below

/-! ### Lists -/

variable {f : α → Outcome β} {g : α → List ι} {as : List α}

lemma mapM (h : ∀ a ∈ as, (f a).Inspects I (g a)) : (as.mapM f).Inspects I (as.flatMap g) := by
  induction as with
  | nil => exact ok []
  | cons a as ih =>
    rw [List.forall_mem_cons] at h
    rw [List.mapM_cons, List.flatMap_cons]
    exact h.1.bind fun b => (ih h.2).bind_ok _

lemma forM {f : α → Outcome Unit} (h : ∀ a ∈ as, (f a).Inspects I (g a)) :
    (as.forM f).Inspects I (as.flatMap g) := by
  induction as with
  | nil => exact ok ()
  | cons a as ih =>
    rw [List.forall_mem_cons] at h
    rw [List.flatMap_cons]
    exact h.1.bind fun _ => ih h.2

lemma forItems (h : ∀ a ∈ as, (f a).Inspects I (g a)) :
    (Clausal.forItems f as).Inspects I
      (as.zipIdx.flatMap fun (a, i) => (g a).map (I.under [.item i])) := by
  refine mapM fun a ha => (h a.1 ?_).below
  obtain ⟨-, -, ha⟩ := List.mem_zipIdx ha
  exact ha ▸ List.getElem_mem _

/-! ### Ends -/

/-- The operation answers exactly if everything is in order. -/
lemma exists_ok_iff (hx : x.Inspects I is) : (∃ a, x = .ok a) ↔ ∀ i ∈ is, I.InOrder i := by
  cases x with
  | ok a => exact ⟨fun _ => hx.inOrder a rfl, fun _ => ⟨a, rfl⟩⟩
  | error e =>
    refine iff_of_false nofun fun h => ?_
    obtain ⟨i, ⟨before, after, rfl, -, hi⟩, -⟩ := hx.stops e rfl
    exact hi (h i (List.mem_append_right _ List.mem_cons_self))

end Outcome.Inspects

end Clausal
