import Clausal.Proofs.Authoring.Positions
import Clausal.Proofs.Authoring.Representations
import Clausal.Proofs.Faults

/-!
# Integers too long to be shown

A document is answered by a value or by a fault, with one exception: a number that is out of range
and too long to be shown. Which documents these are is told by reading them a second time, with a
short number in the place of each that is too long. Both readings take the same way, and they end
differently only if the second ends in a fault that shows one of the numbers put in.
-/

namespace Clausal

/-- The number itself, or a number out of every range for one that is too long to be shown. -/
def shortened (n : Int) : Int := if n.natAbs < integerLimit then n else 1000

lemma shortened_eq_or (n : Int) : shortened n = n ∧ n.natAbs < integerLimit ∨
    shortened n = 1000 ∧ integerLimit ≤ n.natAbs := by
  unfold shortened
  split
  · next h => exact .inl ⟨rfl, h⟩
  · next h => exact .inr ⟨rfl, Nat.not_lt.mp h⟩

attribute [irreducible] shortened

/-- The value with a short number in the place of each that is too long to be shown. -/
def Json.shortened : Json → Json
  | int n => .int (Clausal.shortened n)
  | array items => .array (items.map shortened)
  | object members => .object (members.map fun m => (m.1, m.2.shortened))
  | null => .null
  | bool b => .bool b
  | float bits => .float bits
  | string t => .string t
termination_by j => sizeOf j
decreasing_by
  · exact sizeOf_lt_of_mem_parts (j := array items) ‹_›
  · rename_i h
    exact sizeOf_lt_of_mem_parts (j := object members) (List.mem_map_of_mem h)

/-- The fault would show a number of the value that is too long to be shown. -/
def Fault.Unshowable (j : Json) (f : Fault) : Prop :=
  f.cause.integer?.isSome ∧ ∃ n, j.follow? f.path = some (.int n) ∧ integerLimit ≤ n.natAbs

/-- How reading a value ends in `x` when reading it shortened ends in `y`: in an answer that is read
as `g` of it, in the same fault, or in none because the fault cannot be shown. -/
inductive Json.Retells (j : Json) {α β : Type} (g : α → β) : Outcome α → Outcome β → Prop
  | ok (a : α) : j.Retells g (.ok a) (.ok (g a))
  | fault {f : Fault} (h : ¬f.Unshowable j) :
    j.Retells g (.error (.fault f)) (.error (.fault f))
  | unshowable {f : Fault} (h : f.Unshowable j) :
    j.Retells g (.error (.misuse .integerTooLong)) (.error (.fault f))

variable {parser : Parser} {config : Config} {j v : Json} {ms : Members} {js : List Json}

/-- The members with their values shortened. -/
def Members.shortened (ms : Members) : Members := ms.map fun m => (m.1, m.2.shortened)

lemma Members.get?_shortened (name : String) :
    get? ms.shortened name = (get? ms name).map Json.shortened := lookup_map_snd _ _ _

namespace Json.Retells

variable {α β γ δ : Type} {g : α → β} {x : Outcome α} {y : Outcome β}

/-! ### Steps -/

lemma of_showsNoInteger {x : Outcome α} (hx : x.ShowsNoInteger) : j.Retells id x x := by
  cases x with
  | ok a => exact .ok a
  | error e =>
    cases e with
    | misuse m => exact (hx _ rfl).elim
    | fault f =>
      have hcause : f.cause.integer? = none := hx _ rfl
      exact .fault fun ⟨h, _⟩ => by simp [hcause] at h

lemma refuse {cause : Cause} {path : Path} (h : cause.integer? = none) :
    j.Retells g (Clausal.refuse cause path) (Clausal.refuse cause path) :=
  .fault fun ⟨hf, _⟩ => by simp [h] at hf

lemma bind {f : α → Outcome γ} {f' : β → Outcome δ} {g' : γ → δ} (h : j.Retells g x y)
    (hf : ∀ a, x = .ok a → j.Retells g' (f a) (f' (g a))) :
    j.Retells g' (x >>= f) (y >>= f') := by
  cases h with
  | ok a => exact hf a rfl
  | fault h => exact .fault h
  | unshowable h => exact .unshowable h

lemma map {f : α → γ} {f' : β → δ} {g' : γ → δ} (h : j.Retells g x y)
    (hf : ∀ a, f' (g a) = g' (f a)) : j.Retells g' (f <$> x) (f' <$> y) := by
  cases h with
  | ok a =>
    change j.Retells g' (.ok (f a)) (.ok (f' (g a)))
    exact hf a ▸ .ok (f a)
  | fault h => exact .fault h
  | unshowable h => exact .unshowable h

lemma below {s : Step} (hs : j.part? s = some v) (h : v.Retells g x y) :
    j.Retells g (Clausal.below [s] x) (Clausal.below [s] y) := by
  have hunder {f : Fault} : Fault.Unshowable j { f with path := s :: f.path } ↔ f.Unshowable v := by
    simp only [Fault.Unshowable, follow?_cons_of_part? hs]
  cases h with
  | ok a => exact .ok a
  | fault h => exact .fault fun hf => h (hunder.mp hf)
  | unshowable h => exact .unshowable (hunder.mpr h)

lemma inField {name : String} (hget : Members.get? ms name = some v) (h : v.Retells g x y) :
    (object ms).Retells g (Clausal.inField name x) (Clausal.inField name y) :=
  h.below (part?_of_get hget)

lemma inItem {i : Nat} (hi : js[i]? = some v) (h : v.Retells g x y) :
    (array js).Retells g (Clausal.inItem i x) (Clausal.inItem i y) := h.below hi

lemma mapM {f : α → Outcome β} {f' : γ → Outcome δ} {t : α → γ} {g : β → δ} {as : List α}
    (h : ∀ a ∈ as, j.Retells g (f a) (f' (t a))) :
    j.Retells (List.map g) (as.mapM f) ((as.map t).mapM f') := by
  induction as with
  | nil => exact .ok []
  | cons a as ih =>
    rw [List.forall_mem_cons] at h
    rw [List.map_cons, List.mapM_cons, List.mapM_cons]
    exact h.1.bind fun b _ => (ih h.2).bind fun bs _ => .ok _

/-- Items that correspond to those of an array. -/
lemma forItems {R : Json → α → Prop} {f : α → Outcome β} {f' : γ → Outcome δ} {t : α → γ}
    {g : β → δ} {as : List α} (has : List.Forall₂ R js as)
    (h : ∀ v a, R v a → v.Retells g (f a) (f' (t a))) :
    (array js).Retells (List.map g) (Clausal.forItems f as) (Clausal.forItems f' (as.map t)) := by
  unfold Clausal.forItems
  rw [List.zipIdx_map]
  refine mapM fun p hp => ?_
  obtain ⟨v, hv, hR⟩ :=
    Outcome.exists_getElem?_of_forall₂ has (List.mk_mem_zipIdx_iff_getElem?.mp hp)
  exact inItem hv (h v p.1 hR)

/-! ### Values -/

lemma asMembers : j.Retells Members.shortened j.asMembers j.shortened.asMembers := by
  cases j with
  | object ms =>
    rw [Json.shortened]
    exact .ok ms
  | _ =>
    rw [Json.shortened]
    exact refuse rfl

lemma asString : j.Retells id j.asString j.shortened.asString := by
  cases j with
  | string t =>
    rw [Json.shortened]
    exact .ok t
  | _ =>
    rw [Json.shortened]
    exact refuse rfl

lemma textBytes (t : Text) : j.Retells id (textBytes t) (textBytes t) := by
  unfold Json.textBytes
  split
  · exact .ok _
  · exact refuse rfl

lemma asName : j.Retells id j.asName j.shortened.asName := asString.bind fun t _ => textBytes t

lemma asInteger : j.Retells Clausal.shortened j.asInteger j.shortened.asInteger := by
  cases j with
  | int n =>
    rw [Json.shortened]
    exact .ok n
  | _ =>
    rw [Json.shortened]
    exact refuse rfl

lemma asBoolean : j.Retells id j.asBoolean j.shortened.asBoolean := by
  cases j with
  | bool b =>
    rw [Json.shortened]
    exact .ok b
  | _ =>
    rw [Json.shortened]
    exact refuse rfl

lemma asSymbol [Vocabulary α] :
    j.Retells id (j.asSymbol : Outcome α) (j.shortened.asSymbol : Outcome α) := by
  have hspelled (t : Text) : j.Retells id (spelledSymbol t : Outcome α) (spelledSymbol t) := by
    unfold spelledSymbol
    split
    · exact .ok _
    · exact refuse rfl
  exact asString.bind fun t _ => hspelled t

lemma asItems {read : Json → Outcome α} {read' : Json → Outcome β} {g : α → β}
    (h : ∀ v : Json, v.Retells g (read v) (read' v.shortened)) :
    j.Retells (List.map g) (j.asItems read) (j.shortened.asItems read') := by
  cases j with
  | array js =>
    have hsame : List.Forall₂ Eq js js := List.forall₂_eq_eq_eq ▸ rfl
    rw [Json.shortened]
    exact forItems hsame fun v a hva => hva ▸ h v
  | _ =>
    rw [Json.shortened]
    exact refuse rfl

/-! ### Members -/

lemma required {name : String} {read : Json → Outcome α} {read' : Json → Outcome β} {g : α → β}
    (h : ∀ v : Json, v.Retells g (read v) (read' v.shortened)) :
    (object ms).Retells g (Members.required ms name read)
      (Members.required ms.shortened name read') := by
  unfold Members.required
  rw [Members.get?_shortened]
  cases hget : Members.get? ms name with
  | some v => exact inField hget (h v)
  | none => exact refuse rfl

lemma optional {name : String} {default : α} {read : Json → Outcome α} {read' : Json → Outcome β}
    {g : α → β} (h : ∀ v : Json, v.Retells g (read v) (read' v.shortened)) :
    (object ms).Retells g (Members.optional ms name default read)
      (Members.optional ms.shortened name (g default) read') := by
  unfold Members.optional
  rw [Members.get?_shortened]
  cases hget : Members.get? ms name with
  | none => exact .ok default
  | some v =>
    have hread := inField hget (h v)
    -- null counts as absent, and it is null that stays null
    cases v with
    | null =>
      rw [Option.map_some, Json.shortened]
      exact .ok default
    | _ =>
      rw [Json.shortened] at hread
      rw [Option.map_some, Json.shortened]
      exact hread

lemma optionalSome {name : String} {read : Json → Outcome α} {read' : Json → Outcome β} {g : α → β}
    (h : ∀ v : Json, v.Retells g (read v) (read' v.shortened)) :
    (object ms).Retells (Option.map g) (Members.optional ms name none fun v => some <$> read v)
      (Members.optional ms.shortened name none fun v => some <$> read' v) :=
  optional (g := Option.map g) fun v => (h v).map fun _ => rfl

lemma checkFields (fields : List String) :
    (object ms).Retells id (Members.checkFields config fields ms)
      (Members.checkFields config fields ms.shortened) := by
  have hfind : ms.shortened.find? (fun m => !(fields.map Text.ofString).contains m.1) =
      (ms.find? fun m => !(fields.map Text.ofString).contains m.1).map
        fun m => (m.1, m.2.shortened) := List.find?_map
  unfold Members.checkFields
  rw [hfind]
  split
  -- the names stay, so that the same member is the first unknown one
  · cases ms.find? fun m => !(fields.map Text.ofString).contains m.1 with
    | none => exact .ok ()
    | some m => exact refuse rfl
  · exact .ok ()

lemma members (fields : List String) :
    j.Retells Members.shortened (Members.ofJson config fields j)
      (Members.ofJson config fields j.shortened) := by
  refine asMembers.bind fun ms hms => ?_
  obtain rfl := asMembers_eq_ok.mp hms
  exact (checkFields fields).bind fun _ _ => .ok ms

lemma tag {accept : NodeTag → Bool} {cause : NodeTag → Cause} (h : ∀ t, (cause t).integer? = none) :
    (object ms).Retells id (Members.tag ms accept cause)
      (Members.tag ms.shortened accept cause) := by
  refine required fun v => asSymbol.bind fun t _ => ?_
  dsimp only [id]
  split
  · exact .ok t
  · exact refuse (h t)

lemma expectTag {expected : NodeTag} {cause : NodeTag → Cause}
    (h : ∀ t, (cause t).integer? = none) :
    (object ms).Retells id (Members.expectTag ms expected cause)
      (Members.expectTag ms.shortened expected cause) :=
  (tag h).bind fun _ _ => .ok ()

lemma children : (object ms).Retells (List.map Clausal.shortened) (Members.children ms)
    (Members.children ms.shortened) := optional fun _ => asItems fun _ => asInteger

/-! ### Numbers -/

lemma refuseShowing {cause : Int → Cause} (hcause : ∀ n, (cause n).integer?.isSome) (n : Int) :
    (int n).Retells g (Clausal.refuseShowing n (cause n))
      (Clausal.refuseShowing (Clausal.shortened n) (cause (Clausal.shortened n))) := by
  -- short numbers stay; a long one would have to be shown, and a thousand in its place can be
  rcases shortened_eq_or n with ⟨hn, hshort⟩ | ⟨hn, hlong⟩
  · have hshown : ¬Fault.Unshowable (int n) ⟨cause n, [], none⟩ := by
      rintro ⟨-, m, hm, hlong⟩
      obtain rfl : n = m := by simpa [follow?_nil] using hm
      exact Nat.not_lt.mpr hlong hshort
    rw [hn, Outcome.refuseShowing_of_lt hshort, Outcome.refuseShowing_of_lt hshort]
    exact .fault hshown
  · have hthousand : (1000 : Int).natAbs < integerLimit := thousand_lt_integerLimit
    rw [hn, Outcome.refuseShowing_of_le hlong, Outcome.refuseShowing_of_lt hthousand]
    exact .unshowable ⟨hcause _, n, follow?_nil, hlong⟩

/-- A number that is shown if it is out of a range of small numbers. -/
lemma ofRange (low high : Int) (hlow : -1000 < low) (hhigh : high < 1000) (a : Int → α)
    (cause : Int → Cause) (hcause : ∀ n, (cause n).integer?.isSome) (n : Int) :
    (int n).Retells id
      (if low ≤ n ∧ n ≤ high then .ok (a n) else Clausal.refuseShowing n (cause n))
      (if low ≤ Clausal.shortened n ∧ Clausal.shortened n ≤ high then .ok (a (Clausal.shortened n))
        else Clausal.refuseShowing (Clausal.shortened n) (cause (Clausal.shortened n))) := by
  have hlimit := thousand_lt_integerLimit
  have hn := shortened_eq_or n
  -- all numbers in a range are short, so that shortening leads neither into a range nor out of it
  by_cases h : low ≤ n ∧ n ≤ high
  · obtain ⟨hn, -⟩ := hn.resolve_right (by omega)
    rw [hn, if_pos h]
    exact .ok _
  · rw [if_neg h, if_neg (by omega)]
    exact refuseShowing hcause n

lemma inputIndex (n : Int) :
    (int n).Retells id (Clausal.inputIndex n) (Clausal.inputIndex (Clausal.shortened n)) :=
  ofRange 0 255 (by decide) (by decide) (fun n => UInt8.ofNat n.toNat) .indexNotByte
    (fun _ => rfl) n

lemma selector (n : Int) :
    (int n).Retells id (Clausal.selector n) (Clausal.selector (Clausal.shortened n)) :=
  ofRange (-128) 127 (by decide) (by decide) Int8.ofInt .selectorOutOfRange (fun _ => rfl) n

lemma selectors {ns : List Int} (h : Members.children ms = .ok ns) :
    (object ms).Retells id (Clausal.inField "children" (Clausal.selectors ns))
      (Clausal.inField "children" (Clausal.selectors (ns.map Clausal.shortened))) := by
  obtain ⟨-, rfl⟩ | ⟨v, hget, -, hv⟩ := Members.optional_eq_ok.mp h
  · exact .ok []
  · obtain ⟨js, rfl, hjs⟩ := Json.asItems_eq_ok.mp hv
    rw [← List.map_id_fun]
    refine inField hget (forItems hjs fun v n hn => ?_)
    obtain rfl := Json.asInteger_eq_ok.mp hn
    exact selector n

/-! ### Ends -/

/-- The value is answered unless the fault of its shortened form cannot be shown. -/
lemma answers_iff (h : j.Retells g x y) :
    (((∃ a, x = .ok a) ∨ ∃ f, x = .error (.fault f)) ↔
        ¬∃ f, y = .error (.fault f) ∧ f.Unshowable j) ∧
      (x = .error (.misuse .integerTooLong) ↔ ∃ f, y = .error (.fault f) ∧ f.Unshowable j) := by
  cases h with
  | ok a => simp
  | fault h => simp [h]
  | unshowable h => simp [h]

end Json.Retells

open Json (Retells)

/-! ### Nodes -/

lemma NormalInput.retells_ofJson {cause : NodeTag → Cause} (hcause : ∀ t, (cause t).integer? = none)
    (j : Json) : j.Retells id (ofJson config cause j) (ofJson config cause j.shortened) := by
  refine (Retells.members _).bind fun ms hms => ?_
  obtain ⟨rfl, -⟩ := Members.ofJson_eq_ok.mp hms
  refine (Retells.expectTag hcause).bind fun _ _ =>
    (Retells.required fun _ => .asInteger).bind fun n hn =>
    Retells.children.bind fun ns hns => ?_
  obtain ⟨v, hget, hv⟩ := Members.required_eq_ok.mp hn
  obtain rfl := Json.asInteger_eq_ok.mp hv
  exact (Retells.inField hget (.inputIndex n)).bind fun _ _ =>
    (Retells.selectors hns).bind fun _ _ => .ok _

lemma Input.retells_ofJson (j : Json) :
    j.Retells id (ofJson config j) (ofJson config j.shortened) := by
  refine Retells.asMembers.bind fun ms hms => ?_
  obtain rfl := Json.asMembers_eq_ok.mp hms
  refine (Retells.tag fun _ => rfl).bind fun t _ => (Retells.checkFields _).bind fun _ _ => ?_
  cases t with
  | normalInput => exact (NormalInput.retells_ofJson (fun _ => rfl) _).map fun _ => rfl
  | constantInput | labelInput => exact (Retells.required fun _ => .asName).map fun _ => rfl
  | variableInput =>
    exact (Retells.required fun _ => .asName).bind fun _ _ =>
      Retells.children.bind fun _ hns => (Retells.selectors hns).map fun _ => rfl
  | _ => exact Retells.children.bind fun _ hns => (Retells.selectors hns).map fun _ => rfl

lemma Call.retells_ofJson (j : Json) :
    j.Retells id (ofJson config j) (ofJson config j.shortened) := by
  refine Retells.asMembers.bind fun ms hms => ?_
  obtain rfl := Json.asMembers_eq_ok.mp hms
  refine (Retells.tag fun _ => rfl).bind fun t _ => (Retells.checkFields _).bind fun _ _ => ?_
  cases t with
  | variablePredicateCall => exact .ok _
  | inputPredicateCall =>
    refine (Retells.required fun v => ?_).map fun _ => rfl
    cases v with
    | object source =>
      have hsource : (Json.object source).Retells id
          (NormalInput.ofJson config .tagOfCallTarget (.object source))
          (NormalInput.ofJson config .tagOfCallTarget (Json.object source).shortened) :=
        NormalInput.retells_ofJson (fun _ => rfl) _
      rw [Json.shortened] at hsource ⊢
      exact hsource
    | _ =>
      rw [Json.shortened]
      exact .refuse rfl
  | _ => exact (Retells.required fun _ => .asName).map fun _ => rfl

lemma Proposition.retells_ofJson (j : Json) :
    j.Retells id (ofJson config j) (ofJson config j.shortened) := by
  refine (Retells.members _).bind fun ms hms => ?_
  obtain ⟨rfl, -⟩ := Members.ofJson_eq_ok.mp hms
  refine (Retells.expectTag fun _ => rfl).bind fun _ _ =>
    (Retells.required Call.retells_ofJson).bind fun _ _ =>
    (Retells.required fun _ => .asItems Input.retells_ofJson).bind fun inputs _ =>
    (Retells.optionalSome fun _ => Retells.asBoolean).bind fun _ _ => ?_
  rw [List.map_id, Option.map_id]
  exact .ok _

lemma Entry.retells_ofJson (j : Json) :
    j.Retells id (ofJson config j) (ofJson config j.shortened) := by
  cases j with
  | string t =>
    rw [Json.shortened]
    exact (Retells.textBytes t).map fun _ => rfl
  | object ms =>
    have hproposition : (Json.object ms).Retells id (Proposition.ofJson config (.object ms))
        (Proposition.ofJson config (Json.object ms).shortened) := Proposition.retells_ofJson _
    rw [Json.shortened] at hproposition ⊢
    exact hproposition.map fun _ => rfl
  | _ =>
    rw [Json.shortened]
    exact .refuse rfl

lemma Contract.retells_ofJson (j : Json) :
    j.Retells id (ofJson config j) (ofJson config j.shortened) := by
  refine (Retells.members _).bind fun ms hms => ?_
  obtain ⟨rfl, -⟩ := Members.ofJson_eq_ok.mp hms
  refine (Retells.expectTag fun _ => rfl).bind fun _ _ =>
    (Retells.required fun _ => .asName).bind fun _ _ =>
    (Retells.required fun _ => .asName).bind fun _ _ =>
    (Retells.required fun _ => .asSymbol).bind fun _ _ =>
    (Retells.required fun _ => .asItems fun _ => .asName).bind fun _ _ =>
    (Retells.required fun _ => .asItems Entry.retells_ofJson).bind fun _ _ =>
    (Retells.optional fun _ =>
      .asItems (NormalInput.retells_ofJson fun _ => rfl)).bind fun _ _ => ?_
  simp only [List.map_id, id]
  exact .of_showsNoInteger (Contract.checked_showsNoInteger _)

lemma Constant.retells_ofJson (j : Json) :
    j.Retells id (ofJson config j) (ofJson config j.shortened) := by
  refine (Retells.members _).bind fun ms hms => ?_
  obtain ⟨rfl, -⟩ := Members.ofJson_eq_ok.mp hms
  exact (Retells.required fun _ => .asSymbol).bind fun _ _ =>
    (Retells.required fun _ => .asName).bind fun _ _ => .ok _

lemma Predicate.retells_ofJson (j : Json) :
    j.Retells id (ofJson config j) (ofJson config j.shortened) := by
  refine (Retells.members _).bind fun ms hms => ?_
  obtain ⟨rfl, -⟩ := Members.ofJson_eq_ok.mp hms
  refine (Retells.expectTag fun _ => rfl).bind fun _ _ =>
    (Retells.required fun _ => .asName).bind fun _ _ =>
    (Retells.required fun _ => .asItems fun _ => .asName).bind fun _ _ =>
    (Retells.required fun _ => .asItems Contract.retells_ofJson).bind fun _ _ =>
    (Retells.optionalSome fun _ => .asItems Constant.retells_ofJson).bind fun _ _ =>
    (Retells.required fun _ => .asName).bind fun _ _ => ?_
  simp only [List.map_id_fun, Option.map_id, id]
  exact .of_showsNoInteger (Predicate.checked_showsNoInteger _)

/-! ### Roles -/

namespace Role

lemma retells_ofJson (r : Role) (j : Json) :
    j.Retells id (r.ofJson config j) (r.ofJson config j.shortened) := by
  cases r with
  | predicate => exact Predicate.retells_ofJson j
  | contract => exact Contract.retells_ofJson j
  | proposition => exact Proposition.retells_ofJson j
  | call => exact Call.retells_ofJson j
  | input => exact Input.retells_ofJson j
  | constant => exact Constant.retells_ofJson j
  | connective => exact Retells.asSymbol

lemma check_showsNoInteger (r : Role) (x : r.Value) : (r.check x).ShowsNoInteger := by
  cases r with
  | predicate => exact (Predicate.validate_showsNoInteger x).bind fun _ => .ok ()
  | contract => exact (Contract.validate_showsNoInteger x _ _).bind fun _ => .ok ()
  | proposition defs scope =>
    cases defs with
    | none => exact .ok ()
    | some defs => exact Proposition.validate_showsNoInteger _ _ x
  | input defs scope =>
    cases x with
    | normal i =>
      cases defs with
      | none => exact .ok ()
      | some defs => exact i.validate_showsNoInteger _
    | var name cs =>
      cases scope with
      | none => exact .ok ()
      | some scope => exact (checkVisible_showsNoInteger scope name).inField _
    | constant | label | self => exact .ok ()
  | call | constant | connective => exact .ok ()

/-- Reading a value in a role and reading it shortened end alike, but for faults that cannot be
shown. -/
lemma retells_denoteJson (r : Role) (j : Json) :
    j.Retells id (r.denoteJson config j) (r.denoteJson config j.shortened) :=
  (r.retells_ofJson j).bind fun x _ =>
    (Retells.of_showsNoInteger (r.check_showsNoInteger x)).bind fun _ _ => .ok x

end Role

/-! ### Loading -/

/-- A text is read, or it is refused for a fault, or the parser gives up on its nesting. -/
lemma Located.failsOnly_parse (parser : Parser) (t : Text) : Outcome.FailsOnly
    (fun e => (∃ f, e = .fault f) ∨ e = .misuse .callsTooDeep) (parse parser t) := by
  rintro e he
  -- the text either denotes something or is no text of the grammar, unless the parser gives up
  rcases parse_eq_or_gives_up parser t with heq | ⟨hup, -⟩
  · rw [heq] at he
    by_cases hjson : ∃ j, t.Denotes j
    · obtain ⟨j, hj⟩ := hjson
      rcases settles_length hj with ⟨-, l, hl, -⟩ | ⟨-, f, hf, -⟩
      · cases hl.symm.trans he
      · cases hf.symm.trans he
        exact .inl ⟨f, rfl⟩
    · obtain ⟨f, hf, -⟩ := syntaxError_of_not_denotes hjson
      cases hf.symm.trans he
      exact .inl ⟨f, rfl⟩
  · cases hup.symm.trans he
    exact .inr rfl

namespace Json

lemma parts_shortened (j : Json) : j.shortened.parts = j.parts.map shortened := by
  cases j <;> simp [shortened, parts]

lemma height_shortened (j : Json) : j.shortened.height = j.height := by
  induction j using inductionOn with
  | step j ih =>
    have hparts : j.parts.map (height ∘ shortened) = j.parts.map height := List.map_congr_left ih
    rw [height_eq, height_eq, parts_shortened, List.map_map, hparts]

end Json

namespace Source

/-- Nothing but a fault is left of a parser that gives up. -/
lemma onlyFaults_ofReading {x : Traced Located} (h : Outcome.FailsOnly
    (fun e => (∃ f, e = .fault f) ∨ e = .misuse .callsTooDeep) x.outcome) :
    (ofReading x).outcome.OnlyFaults := by
  cases hx : x.outcome with
  -- giving up is the one misuse, and it is caught here
  | ok l => exact outcome_ofReading_of_ok hx ▸ nofun
  | error e =>
    rcases h e hx with ⟨f, rfl⟩ | rfl
    · rw [outcome_ofReading_of_error hx nofun]
      rintro _ ⟨rfl⟩
      exact ⟨f, rfl⟩
    · rw [outcome_ofReading_of_callsTooDeep hx]
      exact (Outcome.ShowsNoInteger.refuse rfl).onlyFaults

lemma onlyFaults_read (parser : Parser) (s : Source) : (s.read parser).outcome.OnlyFaults := by
  cases s with
  | text t =>
    refine onlyFaults_ofReading ?_
    rw [Located.outcome_parseNoted]
    exact Located.failsOnly_parse parser t
  | bytes bs =>
    refine onlyFaults_ofReading ?_
    rw [Located.parseBytesNoted]
    split
    · rw [Located.outcome_parseNoted]
      exact Located.failsOnly_parse parser _
    · exact Outcome.FailsOnly.refuse (.inl ⟨_, rfl⟩)
  | loaded j => exact Outcome.FailsOnly.ok _

lemma onlyFaults_checkLimit {found : Nat} {limit : Int} {cause : Nat → Int → Cause}
    (h : ¬Unshown found limit) : (checkLimit found limit cause).OnlyFaults := by
  rcases checkLimit_cases found limit cause with ⟨-, hx⟩ | ⟨hunshown, -⟩ | ⟨-, -, hx⟩
  · exact hx ▸ Outcome.FailsOnly.ok ()
  · exact (h hunshown).elim
  · rintro e he
    cases hx.symm.trans he
    exact ⟨_, rfl⟩

/-- A source is loaded, or it is refused for a fault, unless a limit cannot be shown. -/
lemma onlyFaults_load {s : Source} (h : ¬s.LimitUnshown parser config) :
    (s.load parser config).outcome.OnlyFaults := by
  rw [LimitUnshown, not_or] at h
  simp only [load, Traced.outcome_bind, Traced.outcome_liftM, Traced.outcome_pure]
  refine Outcome.FailsOnly.bind ?_ fun _ hchecked =>
    Outcome.FailsOnly.bind (onlyFaults_read parser s) fun d hread =>
      Outcome.FailsOnly.bind ?_ fun _ _ => Outcome.FailsOnly.ok d
  · unfold checkSize
    split
    · next n hn => exact onlyFaults_checkLimit fun hunshown => h.1 ⟨n, hn, hunshown⟩
    · exact Outcome.FailsOnly.ok ()
  · rw [checkDepth, Json.depth_eq]
    exact onlyFaults_checkLimit fun hunshown =>
      h.2 ⟨checkSize_eq_ok.mp hchecked, d, hread, hunshown⟩

lemma outcome_load_of_limitUnshown {s : Source} (h : s.LimitUnshown parser config) :
    (s.load parser config).outcome = .error (.misuse .integerTooLong) := by
  rcases h with ⟨n, hn, hunshown⟩ | ⟨hsize, d, hread, hunshown⟩
  · simp only [load, Traced.outcome_bind, Traced.outcome_liftM, checkSize, hn,
      checkLimit_of_unshown hunshown]
    rfl
  · rw [outcome_load_of_read hsize hread, checkLimit_of_unshown hunshown]
    rfl

lemma limitUnshown_loaded_iff {j : Json} :
    (loaded j).LimitUnshown parser config ↔ Unshown j.height config.maxDepth := by
  have hread : ((loaded j).read parser).outcome = .ok (.loaded j) := rfl
  simp [LimitUnshown, size?, hread, Document.value]

end Source

/-! ### Documents -/

namespace Role

/-- A loaded value and its shortened form are answered alike, but for faults that cannot be shown,
if the limit of nesting can be. -/
lemma retells_denote (r : Role) (h : ¬(Source.loaded j).LimitUnshown parser config) :
    j.Retells id (r.denote parser config (.loaded j)).outcome
      (r.denote parser config (.loaded j.shortened)).outcome := by
  rw [Source.limitUnshown_loaded_iff] at h
  have hload := Source.outcome_load_loaded_eq parser config j
  have hload' := Source.outcome_load_loaded_eq parser config j.shortened
  rw [j.height_shortened] at hload'
  rcases Source.checkLimit_cases j.height config.maxDepth Cause.nestingTooDeep with
    ⟨-, hlimit⟩ | ⟨hunshown, -⟩ | ⟨-, -, hlimit⟩
  · rw [hlimit] at hload hload'
    rw [outcome_denote_of_load hload, outcome_denote_of_load hload', Document.place_loaded,
      Document.place_loaded]
    exact r.retells_denoteJson j
  · exact (h hunshown).elim
  · rw [hlimit] at hload hload'
    rw [outcome_denote_of_error hload, outcome_denote_of_error hload']
    exact Retells.of_showsNoInteger (.refuse rfl)

/-- A document that is not handed over as a value is answered by a value or by a fault, if the
limits can be shown. -/
lemma onlyFaults_denote {s : Source} (hs : ∀ j, s ≠ .loaded j)
    (hlimit : ¬s.LimitUnshown parser config) (r : Role) :
    (r.denote parser config s).outcome.OnlyFaults := by
  rw [outcome_denote]
  -- only a loaded value may hold a number that is too long to be shown
  refine Outcome.FailsOnly.bind (Source.onlyFaults_load hlimit) fun d hd e he => ?_
  cases e with
  | fault f => exact ⟨f, rfl⟩
  | misuse m =>
    have hread := (Source.outcome_load_eq_ok.mp hd).2.1
    have hloadable := (Source.loaded_or_loadable hread).resolve_left (hs _)
    have hlong := r.explains_denoteJson d.value _ (Document.place_eq_misuse.mp he)
    exact absurd hloadable.2 hlong.2

/-- The document exceeds a limit that cannot be shown; or it is a value that is refused, when it is
shortened, for a fault that would show one of its numbers that are too long. -/
def Unshowable (parser : Parser) (config : Config) (r : Role) (s : Source) : Prop :=
  s.LimitUnshown parser config ∨
    ∃ j f, s = .loaded j ∧
      (r.denote parser config (.loaded j.shortened)).outcome = .error (.fault f) ∧ f.Unshowable j

/-- A document denotes a value or has a fault, in whatever form it comes and whatever is expected of
it, unless its fault cannot be shown. -/
theorem denote_answers_iff (parser : Parser) (config : Config) (s : Source) (r : Role) :
    (((∃ x, (r.denote parser config s).outcome = .ok x) ∨
        ∃ f, (r.denote parser config s).outcome = .error (.fault f)) ↔
          ¬r.Unshowable parser config s) ∧
      ((r.denote parser config s).outcome = .error (.misuse .integerTooLong) ↔
        r.Unshowable parser config s) := by
  -- a limit comes first; then only loaded values are left to be looked at
  by_cases hlimit : s.LimitUnshown parser config
  · have hunshowable : r.Unshowable parser config s := .inl hlimit
    rw [outcome_denote_of_error (Source.outcome_load_of_limitUnshown hlimit)]
    simp [hunshowable]
  by_cases hs : ∃ j, s = .loaded j
  · obtain ⟨j, rfl⟩ := hs
    have hiff : r.Unshowable parser config (.loaded j) ↔ ∃ f,
        (r.denote parser config (.loaded j.shortened)).outcome = .error (.fault f) ∧
          f.Unshowable j := by
      simp [Unshowable, hlimit]
    rw [hiff]
    exact (r.retells_denote hlimit).answers_iff
  · have hnot : ¬r.Unshowable parser config s :=
      not_or.mpr ⟨hlimit, fun ⟨j, _, h, _⟩ => hs ⟨j, h⟩⟩
    have hfaults : (r.denote parser config s).outcome.OnlyFaults :=
      onlyFaults_denote (fun j h => hs ⟨j, h⟩) hlimit r
    refine ⟨iff_of_true ?_ hnot, iff_of_false (fun h => ?_) hnot⟩
    · cases h : (r.denote parser config s).outcome with
      | ok x => exact .inl ⟨x, rfl⟩
      | error e =>
        obtain ⟨f, rfl⟩ := hfaults e h
        exact .inr ⟨f, rfl⟩
    · obtain ⟨f, hf⟩ := hfaults _ h
      cases hf

/-- A loaded index that is too long to be shown has no answer and no fault. -/
theorem not_answers_indexed :
    ¬((∃ x, ((input none none).denote .standard {}
        (.loaded (indexed integerLimit))).outcome = .ok x) ∨
      ∃ f, ((input none none).denote .standard {} (.loaded (indexed integerLimit))).outcome =
        .error (.fault f)) := by
  have hlong : integerLimit ≤ (integerLimit : Int).natAbs :=
    Nat.le_of_eq (Int.natAbs_natCast _).symm
  generalize (integerLimit : Int) = n at hlong
  rw [denote_indexed_of_long hlong]
  simp

end Role

end Clausal
