import Clausal.Proofs.Authoring.Parts
import Clausal.Proofs.Authoring.Paths

/-!
# The table of positions

The table is keyed by written paths, and ignored members can have names that are written like the
paths of other parts. Such a member is recorded with the object that holds it, before anything below
the object, so what is recorded for a part below replaces it. A part whose position the table knows
keeps it as long as no object above the part is recorded again.
-/

namespace Clausal

/-! ### Paths that go on -/

namespace Path

variable {p q : Path}

/-- A path that goes on below another one. -/
def Below (p q : Path) : Prop := p <+: q ∧ q ≠ p

lemma below_append {s : Step} {r : Path} : Below p (p ++ s :: r) :=
  ⟨List.prefix_append _ _, by simp⟩

lemma Below.of_append {s : Step} {r : Path} (h : Below (p ++ s :: r) q) : Below p q := by
  obtain ⟨⟨t, rfl⟩, -⟩ := h
  rw [List.append_assoc, List.cons_append]
  exact below_append

lemma isPlain_append : IsPlain (p ++ q) ↔ p.IsPlain ∧ q.IsPlain := List.forall_mem_append

lemma isPlain_concat {s : Step} : IsPlain (p ++ [s]) ↔ p.IsPlain ∧ s.IsPlain := by
  rw [isPlain_append]
  exact and_congr_right fun _ => List.forall_mem_singleton

lemma endsName_head_append {xs : Text} (hxs : ∀ x ∈ xs.head?, x.endsName = true) :
    ∀ x ∈ (p.flatMap Step.text ++ xs).head?, x.endsName = true := by
  intro x hx
  rw [List.head?_append, Option.mem_def, Option.or_eq_some_iff] at hx
  obtain hx | ⟨-, hx⟩ := hx
  · exact endsName_head_flatMap x hx
  · exact hxs x hx

lemma prefix_of_flatMap_text (hp : p.IsPlain) (hq : q.IsPlain) {xs : Text}
    (hxs : ∀ x ∈ xs.head?, x.endsName = true)
    (h : p.flatMap Step.text ++ xs = q.flatMap Step.text) : p <+: q := by
  -- on the shorter path; a step of it ends where the next character ends a name
  induction p generalizing q with
  | nil => exact List.nil_prefix
  | cons s p ih =>
    cases q with
    | nil => cases s <;> simp [Step.text] at h
    | cons t q =>
      obtain ⟨hs, hp'⟩ := List.forall_mem_cons.mp hp
      obtain ⟨ht, hq'⟩ := List.forall_mem_cons.mp hq
      rw [List.flatMap_cons, List.append_assoc, List.flatMap_cons] at h
      obtain ⟨rfl, htail⟩ := Step.text_inj hs ht (endsName_head_append hxs) endsName_head_flatMap h
      exact List.cons_prefix_cons.mpr ⟨rfl, ih hp' hq' htail⟩

/-- What is written behind a plain path is written for what lies below it. -/
lemma below_of_render (hp : p.IsPlain) (hq : q.IsPlain) (hne : p ≠ []) {c : CodePoint} {xs : Text}
    (hc : c.endsName = true) (h : p.render [] ++ c :: xs = q.render []) : Below p q := by
  refine ⟨?_, ?_⟩
  · cases p with
    | nil => exact (hne rfl).elim
    | cons s p =>
      cases q with
      -- the first step is written without a separator, all others with one
      | nil => simp [render] at h
      | cons t q =>
        obtain ⟨hs, hp'⟩ := List.forall_mem_cons.mp hp
        obtain ⟨ht, hq'⟩ := List.forall_mem_cons.mp hq
        have hxs : ∀ x ∈ (c :: xs).head?, x.endsName = true := by simpa using hc
        rw [render_cons hs hp', render_cons ht hq', List.append_assoc] at h
        obtain ⟨rfl, htail⟩ := cons_inj hs ht (endsName_head_append hxs) endsName_head_flatMap h
        exact List.cons_prefix_cons.mpr ⟨rfl, prefix_of_flatMap_text hp' hq' hxs htail⟩
  · rintro rfl
    simp at h

/-- A member of an object is written like a plain path only if the path lies below the object. -/
lemma below_of_render_field (hp : p.IsPlain) (hq : q.IsPlain) (hne : q ≠ []) {k : Text}
    (h : render [] (p ++ [.field k]) = q.render []) : Below p q := by
  by_cases hnil : p = []
  · subst hnil
    exact ⟨List.nil_prefix, hne⟩
  · rw [render_concat, Step.render, joinPath] at h
    -- only the empty path is written as nothing, so the base has been written
    have hbase : (p.render []).isEmpty = false := by
      rw [List.isEmpty_eq_false_iff]
      exact fun heq => hnil (eq_of_render_eq (q := []) hp isPlain_nil heq)
    -- a name that starts with a bracket is joined without a dot, and all others with one
    split at h
    · next hbracket =>
      rw [hbase, Bool.false_or, beq_iff_eq] at hbracket
      obtain ⟨k, rfl⟩ := List.head?_eq_some_iff.mp hbracket
      exact below_of_render hp hq hnil rfl h
    · rw [List.append_assoc] at h
      exact below_of_render hp hq hnil rfl h

/-- Among the members of an object only the one with a plain name is written like it. -/
lemma eq_of_render_field {k k' : Text} (hk : k.IsPlain)
    (h : render [] (p ++ [.field k']) = render [] (p ++ [.field k])) : k' = k := by
  have hbracket : k.head? ≠ some (.scalar '[') := fun hhead =>
    (hk.2 _ (List.mem_of_mem_head? hhead)).2 rfl
  rw [render_concat, render_concat, Step.render, Step.render, joinPath, joinPath] at h
  cases hbase : p.render [] with
  | nil => simpa [hbase] using h
  | cons c cs =>
    have hjoin : ((c :: cs).isEmpty || k.head? == some (.scalar '[')) = false := by
      rw [Bool.or_eq_false_iff, beq_eq_false_iff_ne]
      exact ⟨rfl, hbracket⟩
    rw [hbase, hjoin, if_neg Bool.false_ne_true] at h
    split at h
    -- a dot in front of one name would be the bracket of the other
    · next hjoin' =>
      rw [List.append_assoc, List.append_cancel_left_eq] at h
      subst h
      cases hjoin'
    · rwa [List.append_cancel_left_eq] at h

end Path

/-! ### Looking positions up -/

namespace Positions

variable {D v : Document} {known : Positions} {p q : Path} {start : Position}

lemma nearest?_of_lookup {path : Text} (h : known.lookup path = some start) :
    known.nearest? path = some start := by
  rw [nearest?]
  cases path <;> rw [parentPaths, List.findSome?_cons, h]

@[simp] lemma nearest?_nil {path : Text} : nearest? [] path = none :=
  List.findSome?_eq_none_iff.mpr fun _ _ => rfl

/-- Only documents with positions leave something in the table. -/
def Fits (known : Positions) (D : Document) : Prop := D.start? = none → known = []

/-- The table has the position of the part of the document that a plain path leads to. -/
structure Knows (known : Positions) (D : Document) (q : Path) : Prop where
  isPlain : q.IsPlain
  ne_nil : q ≠ []
  lookup : ∃ v, D.follow? q = some v ∧ (D.start?.isSome → known.lookup (q.render []) = v.start?)

/-- What is found for a part that the table knows is where the document itself has it. -/
lemma Knows.nearest?_eq (hfits : known.Fits D) (h : known.Knows D q) :
    known.nearest? (q.render []) = D.position? q := by
  obtain ⟨v, hv, hlookup⟩ := h.lookup
  rw [Document.position?_of_follow? hv]
  have hstart := Document.isSome_start?_of_follow? hv
  -- without positions the table is empty and the document gives none
  cases hD : D.start? with
  | none =>
    rw [hfits hD, nearest?_nil, eq_comm, ← Option.isNone_iff_eq_none]
    simpa [hD] using hstart
  | some start =>
    rw [hD, Option.isSome_some, Option.isSome_iff_exists] at hstart
    obtain ⟨s, hs⟩ := hstart
    rw [hs]
    exact nearest?_of_lookup ((hlookup (by rw [hD]; rfl)).trans hs)

/-! ### Recording -/

lemma record_of_start? (h : v.start? = some start) :
    known.record p v = (p.render [], start) :: known := by
  rw [record, h]

lemma record_of_none (h : v.start? = none) : known.record p v = known := by
  rw [record, h]

lemma Fits.record (hfits : known.Fits D) (hv : v.start?.isSome = D.start?.isSome) :
    (known.record p v).Fits D := by
  intro hD
  have hnone : v.start? = none := by
    rw [← Option.isNone_iff_eq_none]
    simpa [hD] using hv
  rw [record_of_none hnone]
  exact hfits hD

/-- Recording a part makes it known. -/
lemma Knows.record_self (hq : q.IsPlain) (hne : q ≠ []) (hv : D.follow? q = some v) :
    (known.record q v).Knows D q := by
  refine ⟨hq, hne, v, hv, fun hD => ?_⟩
  rw [← Document.isSome_start?_of_follow? hv, Option.isSome_iff_exists] at hD
  obtain ⟨start, hstart⟩ := hD
  rw [record_of_start? hstart, hstart, List.lookup_cons_self]

/-- Recording something else is of no concern to a part, if it is not written alike. -/
lemma Knows.record (h : known.Knows D q)
    (hp : D.start?.isSome → p.render [] = q.render [] → D.follow? q = some v) :
    (known.record p v).Knows D q := by
  obtain ⟨hplain, hne, w, hw, hlookup⟩ := h
  refine ⟨hplain, hne, w, hw, fun hD => ?_⟩
  cases hv : v.start? with
  | none => rw [record_of_none hv, hlookup hD]
  | some start =>
    rw [record_of_start? hv, List.lookup_cons]
    -- an entry for the same text is one for the same path, unless the path was not asked for
    split
    · next hsame =>
      obtain rfl := Option.some.inj ((hp hD (beq_iff_eq.mp hsame).symm).symm.trans hw)
      exact hv.symm
    · exact hlookup hD

/-- Records values one after the other. -/
def recordAll (known : Positions) (entries : List (Path × Document)) : Positions :=
  entries.foldl (fun known e => known.record e.1 e.2) known

variable {entries : List (Path × Document)}

lemma Fits.recordAll (hfits : known.Fits D)
    (hentries : ∀ e ∈ entries, e.2.start?.isSome = D.start?.isSome) :
    (known.recordAll entries).Fits D := by
  induction entries generalizing known with
  | nil => exact hfits
  | cons e entries ih =>
    obtain ⟨he, hentries⟩ := List.forall_mem_cons.mp hentries
    exact ih (hfits.record he) hentries

/-- If all that is written like a part is the part itself, the part is known afterwards if it was
known before or is among what is recorded. -/
lemma Knows.recordAll (hentries : ∀ e ∈ entries, D.start?.isSome →
      e.1.render [] = q.render [] → D.follow? q = some e.2)
    (h : known.Knows D q ∨ q.IsPlain ∧ q ≠ [] ∧ ∃ e ∈ entries, e.1 = q ∧ D.follow? q = some e.2) :
    (known.recordAll entries).Knows D q := by
  -- on the entries, in the order in which they are recorded
  induction entries generalizing known with
  | nil => exact h.resolve_right (by simp)
  | cons e entries ih =>
    obtain ⟨he, hentries⟩ := List.forall_mem_cons.mp hentries
    refine ih hentries ?_
    obtain hknown | ⟨hplain, hne, e', hmem, rfl, hfollow⟩ := h
    · exact .inl (hknown.record he)
    · obtain rfl | hmem := List.mem_cons.mp hmem
      · exact .inl (.record_self hplain hne hfollow)
      · exact .inr ⟨hplain, hne, e', hmem, rfl, hfollow⟩

end Positions

end Clausal
