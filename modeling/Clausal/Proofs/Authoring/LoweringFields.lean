import Clausal.Proofs.Authoring.Lowering

/-!
# Lowering the fields of objects

The members of an object are recorded before any of them is lowered, unknown ones with names like
paths among them. Each field is then lowered once, which leaves alone what is known of the other
fields.
-/

namespace Clausal

open Lowering (Tracks Lowers)
open Positions (Holds)

lemma Document.members?_of_asMembers {d : Document} (h : d.members? = none) :
    d.value.asMembers = refuse (.wrongJsonType "an object" d.value.typeName) := by
  cases hv : d.value with
  | object js => exact (value_ne_object h js hv).elim
  | _ => rfl

/-! ### Scalars -/

namespace Json

lemma faultsAt_mismatch {α : Type} {expected : String} (j : Json) :
    (j.mismatch expected : Outcome α).FaultsAt (· = []) := .refuse rfl

lemma faultsAt_asString (j : Json) : j.asString.FaultsAt (· = []) := by
  cases j with
  | string t => exact .ok t
  | _ => exact faultsAt_mismatch _

lemma faultsAt_textBytes (t : Text) : (textBytes t).FaultsAt (· = []) := by
  unfold textBytes
  split
  · exact .ok _
  · exact .refuse rfl

lemma faultsAt_asName (j : Json) : j.asName.FaultsAt (· = []) :=
  (faultsAt_asString j).bind fun t _ => faultsAt_textBytes t

lemma faultsAt_asInteger (j : Json) : j.asInteger.FaultsAt (· = []) := by
  cases j with
  | int n => exact .ok n
  | _ => exact faultsAt_mismatch _

lemma faultsAt_asBoolean (j : Json) : j.asBoolean.FaultsAt (· = []) := by
  cases j with
  | bool b => exact .ok b
  | _ => exact faultsAt_mismatch _

lemma faultsAt_asSymbol {α : Type} [Vocabulary α] (j : Json) :
    (j.asSymbol : Outcome α).FaultsAt (· = []) := by
  refine (faultsAt_asString j).bind fun t _ => ?_
  unfold spelledSymbol
  split
  · exact .ok _
  · exact .refuse rfl

end Json

/-! ### Members -/

/-- The member that is found first is the one that looking up its name finds. -/
lemma lookup_of_find? {α : Type} {P : Text → Bool} {ms : List (Text × α)} {k : Text} {a : α}
    (h : ms.find? (fun m => P m.1) = some (k, a)) : ms.lookup k = some a := by
  induction ms with
  | nil => cases h
  | cons m ms ih =>
    rw [List.find?_cons] at h
    rw [List.lookup_cons]
    cases hP : P m.1 with
    | true =>
      rw [hP] at h
      obtain rfl := Option.some.inj h
      simp
    | false =>
      rw [hP] at h
      -- a member that was passed over has another name
      have hk : (k == m.1) = false := by
        rw [beq_eq_false_iff_ne]
        rintro rfl
        have := List.find?_some h
        simp [hP] at this
      rw [hk]
      exact ih h

namespace Fields

variable {α β : Type} {D : Document} {S : Path → Prop} {config : Config} {o : Fields}
  {names : List String}

/-- An object at a part of the document; the positions at `S` are not below the part. -/
structure At (D : Document) (S : Path → Prop) (o : Fields) : Prop where
  isPlain : o.path.IsPlain
  follow : D.follow? o.path = some o.owner
  members : o.owner.members? = some o.members
  outside : ∀ q, S q → ¬o.path.Below q
  self : o.path ≠ [] → S o.path

/-- The members with their values. -/
def values (o : Fields) : Members := o.members.map fun m => (m.1, m.2.value)

/-- Where positions are known while the fields are lowered: outside, at the members, and below the
fields that were lowered before. -/
def Reached (o : Fields) (S : Path → Prop) (lowered : List (Text × (Path → Prop))) (q : Path) :
    Prop :=
  S q ∨ (∃ k d, k.IsPlain ∧ o.members.lookup k = some d ∧ q = o.path ++ [.field k]) ∨
    ∃ k after, (k, after) ∈ lowered ∧ ∃ r, after r ∧ q = o.path ++ .field k :: r

variable {lowered : List (Text × (Path → Prop))}

namespace At

lemma follow_lookup (ho : o.At D S) {k : Text} {d : Document} (hk : o.members.lookup k = some d) :
    D.follow? (o.path ++ [.field k]) = some d := by
  rw [Document.follow?_concat ho.follow, Document.part?_field ho.members, hk]

lemma value_owner (ho : o.At D S) : o.owner.value = .object o.values :=
  Document.value_of_members? ho.members

lemma get?_values {name : String} : Members.get? o.values name = (o.get? name).map Document.value :=
  lookup_map_snd _ _ _

/-! ### Members -/

/-- Members that are not fields are refused where they stand. -/
lemma tracks_check (ho : o.At D S) (S' : Path → Prop) (hnames : names ≠ []) :
    Tracks D o.path (Holds D S') (o.check config names) (Members.checkFields config names o.values)
      fun _ => Holds D S' := by
  have hempty : names.isEmpty = false := List.isEmpty_eq_false_iff.mpr hnames
  rw [check, Members.checkFields, hempty, Bool.not_false, Bool.and_true]
  by_cases hreject : config.rejectUnknownFields = true
  -- only the names decide which member is unknown, so the values do not matter
  · rw [if_pos hreject, if_pos hreject, values, List.find?_map]
    cases hfind : o.members.find? fun m => !(names.map Text.ofString).contains m.1 with
    | none =>
      have hvalues : o.members.find? ((fun m => !(names.map Text.ofString).contains m.1) ∘
          fun m : Text × Document => (m.1, m.2.value)) = none := hfind
      rw [hvalues]
      exact .skip ()
    | some m =>
      have hvalues : o.members.find? ((fun m => !(names.map Text.ofString).contains m.1) ∘
          fun m : Text × Document => (m.1, m.2.value)) = some m := hfind
      have hlookup : o.members.lookup m.1 = some m.2 :=
        lookup_of_find? (P := fun k => !(names.map Text.ofString).contains k) hfind
      have hm := ho.follow_lookup hlookup
      rw [hvalues]
      exact Tracks.under (.fail (Document.position?_of_follow? hm)
        (Document.isSome_start?_of_follow? hm) fun _ h => h.fits)
  · rw [if_neg hreject, if_neg hreject]
    exact .skip ()

/-- The members of an object are recorded. Whatever their names are, afterwards those with plain
names are known. -/
lemma tracks_record (hD : D.Distinct) (ho : o.At D S) :
    Tracks D o.path (Holds D S)
      (o.members.forM fun m => Lowering.record (o.path ++ [.field m.1]) m.2) (.ok ())
      fun _ => Holds D (o.Reached S []) := by
  -- a path written like that of a member is below the object, unless it is that member's
  have hbelow {q : Path} (hq : q.IsPlain) (hne : q ≠ []) {k : Text}
      (h : Path.render [] (o.path ++ [.field k]) = q.render []) : o.path.Below q :=
    Path.below_of_render_field ho.isPlain hq hne h
  refine .recordAll (fun m hm => ?_) (fun q hq hplain hne m hm hstart hsame => ?_) ?_
  · exact (Document.isSome_start?_of_mem_members ho.members hm).trans
      (Document.isSome_start?_of_follow? ho.follow)
  · obtain hq | ⟨k, d, hk, hd, rfl⟩ | ⟨_, _, hmem, -⟩ := hq
    -- what is outside the object cannot be written like a member of it
    · exact (ho.outside q hq (hbelow hplain hne hsame)).elim
    · obtain rfl := Path.eq_of_render_field hk hsame
      -- two members with one name would both be written like it, which distinct names exclude
      have hnodup := hD.nodup hstart ho.follow ho.members
      exact ho.follow_lookup ((Json.lookup_eq_some_iff_mem hnodup).mpr hm)
    · cases hmem
  · rintro q (hq | ⟨k, d, hk, hd, rfl⟩ | ⟨_, _, hmem, -⟩)
    · exact .inl hq
    · refine .inr ⟨Path.isPlain_concat.mpr ⟨ho.isPlain, hk⟩, by simp, (k, d), ?_, rfl,
        ho.follow_lookup hd⟩
      obtain ⟨before, after, heq, -⟩ := List.lookup_eq_some_iff.mp hd
      exact heq ▸ List.mem_append_right _ List.mem_cons_self
    · cases hmem

end At

/-! ### Objects -/

section Objects

variable {body : Document → Path → Fields → Lowering α} {read : Json → Members → Outcome α}
  {after : α → Path → Prop} {d : Document} {p : Path}

/-- Once the members of an object are recorded, `body` does what `read` does with their values. -/
def Reads (D : Document) (body : Document → Path → Fields → Lowering α)
    (read : Json → Members → Outcome α) (after : α → Path → Prop) : Prop :=
  ∀ S (o : Fields), o.At D S →
    Tracks D o.path (Holds D (o.Reached S [])) (body o.owner o.path o) (read o.owner.value o.values)
      fun a => Holds D fun q => S q ∨ ∃ r, after a r ∧ q = o.path ++ r

/-- Taking an object apart hands on its members once they are recorded and checked. -/
lemma At.tracks_ofDocument (hD : D.Distinct) (ho : o.At D S) {check : Outcome Unit}
    {body : Fields → Lowering α} {x : Outcome α} {Q : α → Positions → Prop}
    (hcheck : Tracks D o.path (Holds D (o.Reached S [])) (o.check config names) check
      fun _ => Holds D (o.Reached S []))
    (hbody : Tracks D o.path (Holds D (o.Reached S [])) (body o) x Q) :
    Tracks D o.path (Holds D S) (ofDocument config names o.owner o.path >>= body)
      (check >>= fun _ => x) Q := by
  rw [ofDocument, ho.members]
  simp only [bind_assoc, pure_bind]
  exact (Tracks.record ho.isPlain ho.follow).andThen
    ((ho.tracks_record hD).andThen (hcheck.bind fun _ _ => hbody))

lemma tracks_ofDocument (hD : D.Distinct) (check : Members → Outcome Unit) (hp : p.IsPlain)
    (hd : D.follow? p = some d) (hS : ∀ q, S q → ¬p.Below q) (hself : p ≠ [] → S p)
    (hcheck : ∀ o : Fields, o.At D S → Tracks D o.path (Holds D (o.Reached S []))
      (o.check config names) (check o.values) fun _ => Holds D (o.Reached S []))
    (hbody : Reads D body read after) :
    Tracks D p (Holds D S) (ofDocument config names d p >>= body d p)
      (d.value.asMembers >>= fun ms => check ms >>= fun _ => read d.value ms)
      fun a => Holds D fun q => S q ∨ ∃ r, after a r ∧ q = p ++ r := by
  cases hms : d.members? with
  -- what is no object has only itself recorded and is refused at its place
  | none =>
    have hfail : Tracks D p (Holds D S)
        (Lowering.fail (.wrongJsonType "an object" d.value.typeName) p d : Lowering Fields)
        (refuse (.wrongJsonType "an object" d.value.typeName)) fun _ => Holds D S :=
      .fail (Document.position?_of_follow? hd) (Document.isSome_start?_of_follow? hd)
        fun _ h => h.fits
    rw [ofDocument, hms, bind_assoc, Document.members?_of_asMembers hms]
    exact (Tracks.record hp hd).andThen
      (hfail.bind (g := fun _ => read d.value []) fun _ h => nomatch h)
  | some ms =>
    let o : Fields := { owner := d, path := p, members := ms }
    have ho : o.At D S := ⟨hp, hd, hms, hS, hself⟩
    have hmembers : d.value.asMembers = .ok o.values := by
      rw [show d.value = .object o.values from ho.value_owner]
      rfl
    rw [hmembers]
    exact ho.tracks_ofDocument hD (hcheck o ho) (hbody S o ho)

/-- An object with certain fields. -/
lemma Reads.lowers (hD : D.Distinct) (hnames : names ≠ []) (h : Reads D body read after) :
    Lowers D (fun d p => ofDocument config names d p >>= body d p)
      (fun j => Members.ofJson config names j >>= read j) after := by
  intro p d hp hd S hS hself
  simp only [Members.ofJson, bind_assoc, pure_bind]
  exact tracks_ofDocument hD _ hp hd hS hself (fun o ho => ho.tracks_check _ hnames) h

/-- An object with any fields. -/
lemma Reads.lowers_any (hD : D.Distinct) (h : Reads D body read after) :
    Lowers D (fun d p => ofDocument config [] d p >>= body d p)
      (fun j => j.asMembers >>= read j) after := by
  intro p d hp hd S hS hself
  refine tracks_ofDocument hD (fun _ => .ok ()) hp hd hS hself (fun o _ => ?_) h
  have hcheck : o.check config [] = pure () := by simp [check]
  rw [hcheck]
  exact .skip ()

/-- An object that is looked at again, now for certain fields. -/
lemma At.tracks_again (hD : D.Distinct) (ho : o.At D S) (hnames : names ≠ [])
    {body : Fields → Lowering α} {x : Outcome α} {Q : α → Positions → Prop}
    (h : Tracks D o.path (Holds D (o.Reached S [])) (body o) x Q) :
    Tracks D o.path (Holds D (o.Reached S []))
      (ofDocument config names o.owner o.path >>= body)
      (Members.checkFields config names o.values >>= fun _ => x) Q :=
  (ho.tracks_ofDocument hD (ho.tracks_check _ hnames) h).mono
    (fun _ hknown => hknown.mono fun _ hq => .inl hq) fun _ _ _ h => h

end Objects

/-! ### Fields -/

section Parts

variable {lower : Document → Path → Lowering α} {read : Json → Outcome α} {after : α → Path → Prop}
  {name : String} {k : Text} {d : Document} {S' : Path → Prop}

lemma Reached.mono_lowered {q : Path} {after : Path → Prop} (h : o.Reached S lowered q) :
    o.Reached S ((k, after) :: lowered) q :=
  h.imp_right fun h => h.imp_right fun ⟨k, after, hmem, hr⟩ =>
    ⟨k, after, List.mem_cons_of_mem _ hmem, hr⟩

lemma fresh_cons {k' : Text} {after : Path → Prop} (hne : k ≠ k')
    (h : k ∉ lowered.map Prod.fst) : k ∉ ((k', after) :: lowered).map Prod.fst :=
  List.not_mem_cons_of_ne_of_not_mem hne h

namespace At

/-- A field that was not lowered before leaves alone what is known. -/
lemma tracks_part (ho : o.At D S) (h : Lowers D lower read after) (hk : k.IsPlain)
    (hd : o.members.lookup k = some d) (hfresh : k ∉ lowered.map Prod.fst) :
    Tracks D (o.path ++ [.field k]) (Holds D (o.Reached S lowered))
      (lower d (o.path ++ [.field k])) (read d.value)
      fun a => Holds D (o.Reached S ((k, after a) :: lowered)) := by
  have hplain : Path.IsPlain (o.path ++ [.field k]) := Path.isPlain_concat.mpr ⟨ho.isPlain, hk⟩
  refine (h _ d hplain (ho.follow_lookup hd) _ ?_ ?_).mono (fun _ h => h) fun a _ _ hknown =>
    hknown.mono ?_
  -- what is known so far: paths outside the object, its members, and what is below lowered ones
  · rintro q (hq | ⟨k', d', -, -, rfl⟩ | ⟨k', after', hmem, r, -, rfl⟩) hbelow
    · exact ho.outside q hq hbelow.of_append
    · exact hbelow.2 (hbelow.1.eq_of_length (by simp)).symm
    · have hstarts := hbelow.1
      rw [List.prefix_append_right_inj, List.cons_prefix_cons, Step.field.injEq] at hstarts
      exact hfresh (List.mem_map.mpr ⟨_, hmem, hstarts.1.symm⟩)
  · exact fun _ => .inr (.inl ⟨k, d, hk, hd, rfl⟩)
  · rintro q (hq | hq | ⟨k', after', hmem, r, hr, rfl⟩)
    · exact .inl (.inl hq)
    · exact .inl (.inr (.inl hq))
    · obtain ⟨⟨rfl, rfl⟩⟩ | hmem := List.mem_cons.mp hmem
      · exact .inr ⟨r, hr, by simp⟩
      · exact .inl (.inr (.inr ⟨k', after', hmem, r, hr, rfl⟩))

/-- A field that has to be there. If it is not, its object is at fault. -/
lemma tracks_required (ho : o.At D S) (h : Lowers D lower read after)
    (hname : (Text.ofString name).IsPlain) (hfresh : Text.ofString name ∉ lowered.map Prod.fst) :
    Tracks D o.path (Holds D (o.Reached S lowered)) (o.required name lower)
      (Members.required o.values name read)
      fun a => Holds D (o.Reached S ((Text.ofString name, after a) :: lowered)) := by
  rw [required, Members.required, get?_values]
  refine Tracks.under (p := o.path) ?_
  cases hd : o.get? name with
  | some d => exact ho.tracks_part h hname hd hfresh
  | none =>
    exact .fail (Document.position?_of_missing ho.follow ho.members hd)
      (Document.isSome_start?_of_follow? ho.follow) fun _ h => h.fits

/-- A field below which nothing needs to be known. -/
lemma tracks_field (ho : o.At D S) (h : Lowers D lower read after)
    (hname : (Text.ofString name).IsPlain) (hfresh : Text.ofString name ∉ lowered.map Prod.fst) :
    Tracks D o.path (Holds D (o.Reached S lowered)) (o.required name lower)
      (Members.required o.values name read) fun _ => Holds D (o.Reached S lowered) :=
  (ho.tracks_required h hname hfresh).mono (fun _ h => h) fun _ _ _ hknown =>
    hknown.mono fun _ hq => hq.mono_lowered

/-- A field that may be missing or null. -/
lemma tracks_optional (ho : o.At D S) (h : Lowers D lower read after) {default : α}
    (hname : (Text.ofString name).IsPlain) (hfresh : Text.ofString name ∉ lowered.map Prod.fst)
    (hdefault : ∀ r, ¬after default r) :
    Tracks D o.path (Holds D (o.Reached S lowered)) (o.optional name default lower)
      (Members.optional o.values name default read)
      fun a => Holds D (o.Reached S ((Text.ofString name, after a) :: lowered)) := by
  -- nothing is known of a default, since nothing was lowered for it
  have hskip : Tracks D o.path (Holds D (o.Reached S lowered)) (pure default) (.ok default)
      fun a => Holds D (o.Reached S ((Text.ofString name, after a) :: lowered)) := by
    refine (Tracks.pure default).mono (fun _ hknown => hknown.mono ?_) fun _ _ _ h => h
    rintro q (hq | hq | ⟨k', after', hmem, r, hr, rfl⟩)
    · exact .inl hq
    · exact .inr (.inl hq)
    · obtain ⟨⟨rfl, rfl⟩⟩ | hmem := List.mem_cons.mp hmem
      · exact (hdefault r hr).elim
      · exact .inr (.inr ⟨k', after', hmem, r, hr, rfl⟩)
  rw [optional, Members.optional, get?_values]
  cases hd : o.get? name with
  | none => exact hskip
  | some d =>
    by_cases hnull : d.isNull
    · have hvalue : d.value = .null := Document.isNull_iff.mp hnull
      simp only [hnull, if_true, Option.map_some, hvalue]
      exact hskip
    · have hpart := Tracks.under (ho.tracks_part h hname hd hfresh)
      have hvalue : d.value ≠ .null := fun heq => hnull (Document.isNull_iff.mpr heq)
      simp only [hnull, Bool.false_eq_true, if_false, Option.map_some]
      cases hj : d.value with
      | null => exact (hvalue hj).elim
      | _ => exact hj ▸ hpart

/-- A member that was read stands where its field says. -/
lemma reached_field (hname : (Text.ofString name).IsPlain) {a : α}
    (h : Members.required o.values name read = .ok a) :
    o.Reached S lowered (o.path ++ [.field (Text.ofString name)]) := by
  obtain ⟨v, hv, -⟩ := Members.required_eq_ok.mp h
  rw [get?_values, Option.map_eq_some_iff] at hv
  obtain ⟨d, hd, -⟩ := hv
  exact .inr (.inl ⟨_, d, hname, hd, rfl⟩)

lemma reached_below {after : Path → Prop} {r : Path} (hmem : (k, after) ∈ lowered) (hr : after r) :
    o.Reached S lowered (o.path ++ .field k :: r) :=
  .inr (.inr ⟨k, after, hmem, r, hr, rfl⟩)

/-! ### Tags -/

lemma lowers_tag {accept : NodeTag → Bool} {cause : NodeTag → Cause} :
    Lowers D (fun d path => do
        let t ← Lowering.scalar Json.asSymbol d path
        if accept t then return t else Lowering.fail (cause t) path d)
      (fun j => do
        let t ← j.asSymbol
        if accept t then return t else refuse (cause t)) Lowering.Nowhere := by
  intro p d hp hd S hS hself
  refine (Lowers.scalar Json.faultsAt_asSymbol p d hp hd S hS hself).bind fun t _ => ?_
  split
  · exact .skip t
  · exact .fail (Document.position?_of_follow? hd) (Document.isSome_start?_of_follow? hd)
      fun _ h => h.fits

/-- A tag of the wrong kind is refused where it stands. -/
lemma tracks_tag (ho : o.At D S) (accept : NodeTag → Bool) (cause : NodeTag → Cause)
    (hfresh : Text.ofString "type" ∉ lowered.map Prod.fst) :
    Tracks D o.path (Holds D (o.Reached S lowered)) (o.tag accept cause)
      (Members.tag o.values accept cause) fun _ => Holds D (o.Reached S lowered) :=
  ho.tracks_field lowers_tag (by decide) hfresh

lemma tracks_expectTag (ho : o.At D S) (expected : NodeTag) (cause : NodeTag → Cause)
    (hfresh : Text.ofString "type" ∉ lowered.map Prod.fst) :
    Tracks D o.path (Holds D (o.Reached S lowered)) (o.expectTag expected cause)
      (Members.expectTag o.values expected cause) fun _ => Holds D (o.Reached S lowered) :=
  (ho.tracks_tag _ cause hfresh).bind fun _ _ => .skip ()

/-! ### Names and integers -/

lemma tracks_name (ho : o.At D S) (hname : (Text.ofString name).IsPlain)
    (hfresh : Text.ofString name ∉ lowered.map Prod.fst) :
    Tracks D o.path (Holds D (o.Reached S lowered)) (o.name name)
      (Members.required o.values name Json.asName) fun _ => Holds D (o.Reached S lowered) :=
  ho.tracks_field (.scalar Json.faultsAt_asName) hname hfresh

lemma tracks_names (ho : o.At D S) (hname : (Text.ofString name).IsPlain)
    (hfresh : Text.ofString name ∉ lowered.map Prod.fst) :
    Tracks D o.path (Holds D (o.Reached S lowered)) (o.names name)
      (Members.required o.values name (Json.asItems Json.asName))
      fun _ => Holds D (o.Reached S lowered) :=
  ho.tracks_field (.items (.scalar Json.faultsAt_asName)) hname hfresh

lemma tracks_children (ho : o.At D S) (hfresh : Text.ofString "children" ∉ lowered.map Prod.fst) :
    Tracks D o.path (Holds D (o.Reached S lowered)) o.children (Members.children o.values)
      fun ns => Holds D (o.Reached S
        ((Text.ofString "children", Lowering.Lowers.AfterItems Lowering.Nowhere ns) :: lowered)) :=
  ho.tracks_optional (.items (.scalar Json.faultsAt_asInteger)) (by decide) hfresh
    fun _ ⟨_, _, hi, _⟩ => nomatch hi

end At

end Parts

end Fields

end Clausal
