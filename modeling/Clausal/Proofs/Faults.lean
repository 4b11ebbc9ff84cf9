import Clausal.Proofs.Node.WellFormed
import Clausal.Proofs.Refusing
import Clausal.Validation

/-!
# Checks that fail with faults

What a node can be refused for always concerns one of its parts: the checks of nodes and their
validation fail with faults and nothing else. The numbers that they show are those of a node, and
so they are never too long to be shown.
-/

namespace Clausal

/-- The number of a document, of whatever length, that a cause shows. -/
def Cause.integer? : Cause → Option Int
  | indexNotByte n | selectorOutOfRange n | compactNegative n => some n
  | _ => none

/-- A fault that shows no number of a document. -/
def Failure.ShowsNoInteger : Failure → Prop
  | fault f => f.cause.integer? = none
  | misuse _ => False

namespace Outcome

variable {α β : Type} {x : Outcome α}

/-- If the operation fails it does so with a fault. -/
def OnlyFaults (x : Outcome α) : Prop := ∀ e, x = .error e → ∃ f, e = .fault f

/-- If the operation fails it does so with a fault that shows no number of a document. -/
def ShowsNoInteger (x : Outcome α) : Prop := x.FailsOnly Failure.ShowsNoInteger

namespace ShowsNoInteger

lemma onlyFaults (hx : x.ShowsNoInteger) : x.OnlyFaults := by
  intro e he
  cases e with
  | fault f => exact ⟨f, rfl⟩
  | misuse m => exact (hx _ he).elim

lemma ok (a : α) : ShowsNoInteger (.ok a) := FailsOnly.ok a

lemma refuse {cause : Cause} {path : Path} (h : cause.integer? = none) :
    ShowsNoInteger (Clausal.refuse cause path : Outcome α) := FailsOnly.refuse h

lemma bind {f : α → Outcome β} (hx : x.ShowsNoInteger) (hf : ∀ a, (f a).ShowsNoInteger) :
    (x >>= f).ShowsNoInteger := FailsOnly.bind hx fun a _ => hf a

lemma below (steps : Path) (hx : x.ShowsNoInteger) : (Clausal.below steps x).ShowsNoInteger := by
  refine FailsOnly.below (hx.mono fun e he => ?_)
  cases e with
  | fault f => exact he
  | misuse m => exact he.elim

lemma inField (name : String) (hx : x.ShowsNoInteger) :
    (Clausal.inField name x).ShowsNoInteger := hx.below _

lemma inItem (i : Nat) (hx : x.ShowsNoInteger) : (Clausal.inItem i x).ShowsNoInteger := hx.below _

lemma forItems {f : α → Outcome β} (hf : ∀ a, (f a).ShowsNoInteger) (as : List α) :
    (Clausal.forItems f as).ShowsNoInteger := FailsOnly.mapM fun _ _ => (hf _).inItem _

lemma forM {f : α → Outcome Unit} (hf : ∀ a, (f a).ShowsNoInteger) (as : List α) :
    (as.forM f).ShowsNoInteger := FailsOnly.forM fun a _ => hf a

end ShowsNoInteger

end Outcome

open Outcome (OnlyFaults ShowsNoInteger)

/-! ### Checks -/

lemma Connective.shape_showsNoInteger (c : Connective) (inputs : List Entry) :
    (c.shape inputs).ShowsNoInteger := by
  unfold shape
  repeat' split
  all_goals first
    | exact .ok _
    | exact .inField _ (.refuse rfl)

lemma Contract.checked_showsNoInteger (c : Contract) : c.checked.ShowsNoInteger :=
  (c.connective.shape_showsNoInteger c.inputs).bind fun _ => .ok c

lemma distinctNames_showsNoInteger (seen names : List Bytes) :
    (distinctNames seen names).ShowsNoInteger := by
  fun_induction distinctNames seen names with
  | case1 => exact .ok ()
  | case2 => exact .inItem _ (.inField _ (.refuse rfl))
  | case3 _ _ _ _ ih => exact ih

lemma Predicate.checked_showsNoInteger (p : Predicate) : p.checked.ShowsNoInteger := by
  refine ((distinctNames_showsNoInteger _ _).inField _).bind fun _ =>
    ((distinctNames_showsNoInteger _ _).inField _).bind fun _ => ?_
  split
  · exact (ShowsNoInteger.inField _ (.refuse rfl)).bind fun _ => .ok p
  · exact .ok p

lemma Predicate.assemble_showsNoInteger (p : Predicate) : p.assemble.ShowsNoInteger :=
  ((ShowsNoInteger.forItems Contract.checked_showsNoInteger _).inField _).bind fun _ =>
    checked_showsNoInteger _

/-! ### Validation -/

lemma NormalInput.validate_showsNoInteger (arity : Nat) (i : NormalInput) :
    (i.validate arity).ShowsNoInteger := by
  unfold validate
  split
  · exact .ok ()
  · exact .inField _ (.refuse rfl)

lemma checkVisible_showsNoInteger (scope : List Bytes) (name : Bytes) :
    (checkVisible scope name).ShowsNoInteger := by
  unfold checkVisible
  split
  · exact .ok ()
  · exact .refuse rfl

lemma Input.validate_showsNoInteger (arity : Nat) (scope : List Bytes) (i : Input) :
    (i.validate arity scope).ShowsNoInteger := by
  cases i with
  | normal i => exact i.validate_showsNoInteger arity
  | var name cs => exact (checkVisible_showsNoInteger scope name).inField _
  | constant | label | self => exact .ok ()

lemma Call.validate_showsNoInteger (arity : Nat) (c : Call) :
    (c.validate arity).ShowsNoInteger := by
  cases c with
  | input i => exact (i.validate_showsNoInteger arity).inField _
  | atomic | compiled | var => exact .ok ()

lemma Proposition.validate_showsNoInteger (arity : Nat) (scope : List Bytes) (p : Proposition) :
    (p.validate arity scope).ShowsNoInteger :=
  ((p.call.validate_showsNoInteger arity).inField _).bind fun _ =>
    ((ShowsNoInteger.forItems (Input.validate_showsNoInteger arity scope) p.inputs).inField _).bind
      fun _ => .ok ()

lemma Entry.validate_showsNoInteger (arity : Nat) (scope : List Bytes) (e : Entry) :
    (e.validate arity scope).ShowsNoInteger := by
  cases e with
  | proposition p => exact p.validate_showsNoInteger arity scope
  | placeholder => exact .ok ()

lemma Contract.validate_showsNoInteger (c : Contract) (inherited : List Bytes)
    (ownerDefs : Option (List Bytes)) : (c.validate inherited ownerDefs).ShowsNoInteger := by
  refine ((ShowsNoInteger.forM (fun _ => (Entry.validate_showsNoInteger _ _ _).inItem _)
    c.bodies).inField _).bind fun _ => ?_
  cases ownerDefs with
  | none => exact .ok _
  | some defs =>
    exact ((ShowsNoInteger.forItems (NormalInput.validate_showsNoInteger defs.length)
      c.propertyInputs).inField _).bind fun _ => .ok _

lemma Contract.onlyFaults_validate (c : Contract) (inherited : List Bytes)
    (ownerDefs : Option (List Bytes)) : OnlyFaults (c.validate inherited ownerDefs) :=
  (c.validate_showsNoInteger inherited ownerDefs).onlyFaults

lemma Predicate.validate_showsNoInteger (p : Predicate) : p.validate.ShowsNoInteger :=
  ((ShowsNoInteger.forItems (fun _ => (Contract.validate_showsNoInteger _ _ _).bind
    fun _ => .ok _) p.contracts).inField _).bind fun _ => .ok _

end Clausal
