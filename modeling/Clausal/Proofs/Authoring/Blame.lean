import Clausal.Proofs.Authoring.Denoting
import Clausal.Proofs.Authoring.Paths
import Clausal.Proofs.Json.Value
import Clausal.Proofs.Refusing

/-!
# What faults of documents concern

The path of a fault leads through the value that is read to a part of it, to a field that an object
lacks, or to a member that is not known. Every operation on members keeps to this, and the faults of
a part are seen from the whole with the way to the part in front.
-/

namespace Clausal

namespace Json

/-- The part of a value that a step leads to. -/
def part? : Json → Step → Option Json
  | object ms, .field k => ms.lookup k
  | array js, .item i => js[i]?
  | _, _ => none

/-- The part of a value that a path leads to. -/
def follow? (j : Json) (p : Path) : Option Json := p.foldlM part? j

variable {j v : Json} {ms : Members} {p q : Path} {s : Step}

lemma follow?_nil : j.follow? [] = some j := rfl

lemma follow?_cons : j.follow? (s :: p) = (j.part? s).bind (·.follow? p) := by
  rw [follow?, List.foldlM_cons]
  rfl

lemma follow?_cons_of_part? (h : j.part? s = some v) : j.follow? (s :: p) = v.follow? p := by
  rw [follow?_cons, h]
  rfl

lemma follow?_append (h : j.follow? p = some v) : j.follow? (p ++ q) = v.follow? q := by
  rw [follow?, List.foldlM_append, show p.foldlM part? j = some v from h]
  rfl

lemma mem_parts_of_part? (h : j.part? s = some v) : v ∈ j.parts := by
  cases j with
  | object ms =>
    cases s with
    | field k => exact mem_parts_of_lookup h
    | item i => cases h
  | array js =>
    cases s with
    | field k => cases h
    | item i => exact List.mem_of_getElem? h
  | _ => cases h

lemma height_le_of_follow? (h : j.follow? p = some v) : v.height ≤ j.height := by
  induction p generalizing j with
  | nil =>
    obtain rfl := Option.some.inj h
    exact le_rfl
  | cons s p ih =>
    rw [follow?_cons, Option.bind_eq_some_iff] at h
    obtain ⟨w, hw, h⟩ := h
    exact (ih h).trans (height_lt_of_mem_parts (mem_parts_of_part? hw)).le

lemma part?_of_get {name : String} (h : Members.get? ms name = some v) :
    (object ms).part? (.field (Text.ofString name)) = some v := h

end Json

/-- What the path of a fault says of a value: it leads to a part, to a field that an object lacks or
to a member that an object should not have. Names along the way are plain. -/
inductive Fault.Concerns (j : Json) : Fault → Prop
  | part {cause : Cause} {p : Path} {v : Json} (hv : j.follow? p = some v) (hp : p.IsPlain)
      (hkind : cause.kind ≠ .unknownField) : Concerns j ⟨cause, p, none⟩
  | missing {name : String} {p : Path} {ms : Members} (hms : j.follow? p = some (.object ms))
      (hget : Members.get? ms name = none) (hp : p.IsPlain)
      (hname : (Text.ofString name).IsPlain) :
      Concerns j ⟨.missingField name, p ++ [.field (Text.ofString name)], none⟩
  | unknown {name : Text} {p : Path} {ms : Members} {v : Json}
      (hms : j.follow? p = some (.object ms)) (hv : ms.lookup name = some v) (hp : p.IsPlain) :
      Concerns j ⟨.unknownField name, p ++ [.field name], none⟩

/-- The failure is a fault that concerns the value, or there is an integer in it that is too long to
be shown. -/
def Failure.Concerns (j : Json) : Failure → Prop
  | fault f => f.Concerns j
  | misuse m => m = .integerTooLong ∧ ¬j.Short

/-- What concerns a part concerns the whole. -/
lemma Failure.Concerns.under {j v : Json} {s : Step} {e : Failure} (hs : j.part? s = some v)
    (hplain : s.IsPlain) (h : e.Concerns v) : (e.under [s]).Concerns j := by
  have hfollow (p : Path) : j.follow? (s :: p) = v.follow? p := Json.follow?_cons_of_part? hs
  have hpath {p : Path} (hp : p.IsPlain) : Path.IsPlain (s :: p) :=
    List.forall_mem_cons.mpr ⟨hplain, hp⟩
  cases e with
  | misuse m =>
    obtain ⟨rfl, hshort⟩ := h
    exact ⟨rfl, fun hj => hshort ((Json.short_iff.mp hj).2 v (Json.mem_parts_of_part? hs))⟩
  | fault f =>
    cases h with
    | part hv hp hkind => exact .part ((hfollow _).trans hv) (hpath hp) hkind
    | missing hms hget hp hname => exact .missing ((hfollow _).trans hms) hget (hpath hp) hname
    | unknown hms hv hp => exact .unknown ((hfollow _).trans hms) hv (hpath hp)

/-- Every failure of the operation concerns the value. -/
def Json.Explains {α : Type} (j : Json) (x : Outcome α) : Prop := x.FailsOnly (Failure.Concerns j)

namespace Json.Explains

variable {α β : Type} {j v : Json} {ms : Members} {js : List Json} {name : String}

/-! ### Values -/

lemma ok (a : α) : j.Explains (.ok a : Outcome α) := Outcome.FailsOnly.ok a

lemma refuse {cause : Cause} (h : (cause.kind == .unknownField) = false) :
    j.Explains (Clausal.refuse cause : Outcome α) :=
  Outcome.FailsOnly.refuse (.part follow?_nil Path.isPlain_nil (beq_eq_false_iff_ne.mp h))

lemma refuseShowing {n : Int} {cause : Cause} (h : (cause.kind == .unknownField) = false) :
    (int n).Explains (Clausal.refuseShowing n cause : Outcome α) := by
  unfold Clausal.refuseShowing
  split
  · exact refuse h
  · next hlong =>
    intro e he
    cases he
    exact ⟨rfl, fun hshort => hlong ((short_iff.mp hshort).1 n rfl)⟩

lemma bind {x : Outcome α} {f : α → Outcome β} (hx : j.Explains x)
    (hf : ∀ a, x = .ok a → j.Explains (f a)) : j.Explains (x >>= f) :=
  Outcome.FailsOnly.bind hx hf

lemma map {x : Outcome α} {f : α → β} (hx : j.Explains x) : j.Explains (f <$> x) :=
  Outcome.FailsOnly.map hx

lemma mismatch (expected : String) : j.Explains (j.mismatch expected : Outcome α) := refuse rfl

lemma asMembers : j.Explains j.asMembers := by
  cases j with
  | object ms => exact ok ms
  | _ => exact mismatch _

lemma asString : j.Explains j.asString := by
  cases j with
  | string t => exact ok t
  | _ => exact mismatch _

lemma textBytes (t : Text) : j.Explains (textBytes t) := by
  unfold Json.textBytes
  split
  · exact ok _
  · exact refuse rfl

lemma asName : j.Explains j.asName := asString.bind fun t _ => textBytes t

lemma asInteger : j.Explains j.asInteger := by
  cases j with
  | int n => exact ok n
  | _ => exact mismatch _

lemma asBoolean : j.Explains j.asBoolean := by
  cases j with
  | bool b => exact ok b
  | _ => exact mismatch _

lemma asSymbol [Vocabulary α] : j.Explains (j.asSymbol : Outcome α) := by
  refine asString.bind fun t _ => ?_
  unfold spelledSymbol
  split
  · exact ok _
  · exact refuse rfl

/-! ### Parts -/

lemma inField {x : Outcome α} (hname : (Text.ofString name).IsPlain)
    (hget : Members.get? ms name = some v) (hx : v.Explains x) :
    (object ms).Explains (Clausal.inField name x) :=
  Outcome.FailsOnly.below (hx.mono fun _ he => he.under (part?_of_get hget) hname)

lemma inItem {x : Outcome α} {i : Nat} (hi : js[i]? = some v) (hx : v.Explains x) :
    (array js).Explains (Clausal.inItem i x) :=
  Outcome.FailsOnly.below (hx.mono fun _ he => he.under hi trivial)

/-- Items that correspond to those of an array. -/
lemma forItems {R : Json → α → Prop} {as : List α} {f : α → Outcome β} (h : List.Forall₂ R js as)
    (hf : ∀ v a, R v a → v.Explains (f a)) : (array js).Explains (Clausal.forItems f as) := by
  refine Outcome.FailsOnly.forItems fun i a ha => ?_
  obtain ⟨v, hv, hR⟩ := Outcome.exists_getElem?_of_forall₂ h ha
  exact (hf v a hR).mono fun _ he => he.under hv trivial

lemma asItems {read : Json → Outcome α} (hread : ∀ v : Json, v.Explains (read v)) :
    j.Explains (j.asItems read) := by
  cases j with
  | array js =>
    have hsame : List.Forall₂ Eq js js := List.forall₂_eq_eq_eq ▸ rfl
    exact forItems hsame fun v a h => h ▸ hread v
  | _ => exact mismatch _

/-! ### Members -/

lemma required {read : Json → Outcome α} (hname : (Text.ofString name).IsPlain)
    (hread : ∀ v : Json, v.Explains (read v)) :
    (object ms).Explains (Members.required ms name read) := by
  unfold Members.required
  cases hget : Members.get? ms name with
  | some v => exact inField hname hget (hread v)
  | none =>
    exact Outcome.FailsOnly.below
      (Outcome.FailsOnly.refuse (.missing (p := []) follow?_nil hget Path.isPlain_nil hname))

lemma requiredName (hname : (Text.ofString name).IsPlain) :
    (object ms).Explains (Members.required ms name Json.asName) := required hname fun _ => asName

lemma requiredNames (hname : (Text.ofString name).IsPlain) :
    (object ms).Explains (Members.required ms name (Json.asItems Json.asName)) :=
  required hname fun _ => asItems fun _ => asName

lemma optional {default : α} {read : Json → Outcome α} (hname : (Text.ofString name).IsPlain)
    (hread : ∀ v : Json, v.Explains (read v)) :
    (object ms).Explains (Members.optional ms name default read) := by
  unfold Members.optional
  split
  · exact ok default
  · exact ok default
  · next v _ hget => exact inField hname hget (hread v)

lemma tag {accept : NodeTag → Bool} {cause : NodeTag → Cause}
    (h : ∀ t, ((cause t).kind == .unknownField) = false) :
    (object ms).Explains (Members.tag ms accept cause) := by
  refine required (by decide) fun v => asSymbol.bind fun t _ => ?_
  split
  · exact ok t
  · exact refuse (h t)

lemma expectTag {expected : NodeTag} {cause : NodeTag → Cause}
    (h : ∀ t, ((cause t).kind == .unknownField) = false) :
    (object ms).Explains (Members.expectTag ms expected cause) :=
  (tag h).bind fun _ _ => ok ()

lemma exists_lookup_of_mem {k : Text} (h : (k, v) ∈ ms) : ∃ w, ms.lookup k = some w := by
  cases hw : ms.lookup k with
  | some w => exact ⟨w, rfl⟩
  | none => exact absurd (List.lookup_eq_none_iff.mp hw _ h) (by simp)

lemma checkFields (config : Config) (fields : List String) :
    (object ms).Explains (Members.checkFields config fields ms) := by
  unfold Members.checkFields
  split
  · split
    · next k v hfind =>
      obtain ⟨w, hw⟩ := exists_lookup_of_mem (List.mem_of_find?_eq_some hfind)
      exact Outcome.FailsOnly.refuse (.unknown (p := []) follow?_nil hw Path.isPlain_nil)
    · exact ok ()
  · exact ok ()

lemma members (config : Config) (fields : List String) :
    j.Explains (Members.ofJson config fields j) := by
  refine asMembers.bind fun ms hms => ?_
  obtain rfl := asMembers_eq_ok.mp hms
  exact (checkFields config fields).bind fun _ _ => ok ms

lemma children : (object ms).Explains (Members.children ms) :=
  optional (by decide) fun _ => asItems fun _ => asInteger

end Json.Explains

end Clausal
