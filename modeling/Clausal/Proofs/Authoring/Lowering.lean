import Clausal.Proofs.Authoring.Table
import Clausal.Proofs.Refusing

/-!
# Lowering reads values and places faults

An operation of lowering does what reading does with the value of the part at hand: it gives the
same answer, and the same fault with the position of the part that its path leads to. What it leaves
in the table is known from then on, and what lies outside the part stays known.
-/

namespace Clausal

/-! ### Faults of known parts -/

/-- Every fault lacks a position and lies at one of the paths. -/
def Outcome.FaultsAt {α : Type} (at? : Path → Prop) (x : Outcome α) : Prop :=
  x.FailsOnly fun e => ∀ f, e = .fault f → f.position = none ∧ at? f.path

namespace Outcome.FaultsAt

variable {α β : Type} {S S' : Path → Prop} {x : Outcome α}

lemma mono (hx : x.FaultsAt S) (h : ∀ q, S q → S' q) : x.FaultsAt S' :=
  FailsOnly.mono hx fun _ he f hf => ⟨(he f hf).1, h _ (he f hf).2⟩

lemma ok (a : α) : FaultsAt S (.ok a : Outcome α) := FailsOnly.ok a

lemma refuse {cause : Cause} {path : Path} (h : S path) :
    FaultsAt S (Clausal.refuse cause path : Outcome α) := by
  refine FailsOnly.refuse fun f hf => ?_
  cases hf
  exact ⟨rfl, h⟩

lemma refuseShowing {n : Int} {cause : Cause} (h : S []) :
    FaultsAt S (Clausal.refuseShowing n cause : Outcome α) := by
  unfold Clausal.refuseShowing
  split
  · exact refuse h
  · rintro e he f rfl
    cases he

lemma bind {f : α → Outcome β} (hx : x.FaultsAt S) (hf : ∀ a, x = .ok a → (f a).FaultsAt S) :
    (x >>= f).FaultsAt S := FailsOnly.bind hx hf

lemma map {f : α → β} (hx : x.FaultsAt S) : (f <$> x).FaultsAt S := FailsOnly.map hx

lemma below {steps : Path} (hx : x.FaultsAt fun q => S (steps ++ q)) :
    (Clausal.below steps x).FaultsAt S := by
  refine FailsOnly.below (FailsOnly.mono hx ?_)
  rintro e he f hf
  cases e with
  | misuse m => cases hf
  | fault g =>
    cases hf
    exact he g rfl

lemma forItems {f : α → Outcome β} {as : List α}
    (hf : ∀ i a, as[i]? = some a → (f a).FaultsAt fun q => S (.item i :: q)) :
    (Clausal.forItems f as).FaultsAt S := by
  refine FailsOnly.mapM fun p hp => ?_
  exact below (hf p.2 p.1 (List.mk_mem_zipIdx_iff_getElem?.mp hp))

end Outcome.FaultsAt

/-! ### Operations that track reading -/

/-- From tables with `P` the operation does for the part at `p` what `x` does, faults being placed
as in the document, and leaves tables with `Q`. -/
structure Lowering.Tracks {α : Type} (D : Document) (p : Path) (P : Positions → Prop)
    (m : Lowering α) (x : Outcome α) (Q : α → Positions → Prop) : Prop where
  ok : ∀ known, P known → ∀ a, x = .ok a → ∃ known', m known = .ok (a, known') ∧ Q a known'
  error : ∀ known, P known → ∀ e, x = .error e → m known = .error (D.placeFailure (e.under p))

/-- The positions of the parts at some paths are known. -/
structure Positions.Holds (D : Document) (S : Path → Prop) (known : Positions) : Prop where
  fits : known.Fits D
  knows : ∀ q, S q → known.Knows D q

lemma Positions.Holds.mono {D : Document} {S S' : Path → Prop} {known : Positions}
    (h : Holds D S known) (hS : ∀ q, S' q → S q) : Holds D S' known :=
  ⟨h.fits, fun q hq => h.knows q (hS q hq)⟩

open Positions (Holds)

/-- Faults of known parts are placed by the table as by the document. -/
lemma Positions.Holds.placeFailure_eq {D : Document} {S : Path → Prop} {known : Positions}
    (h : Holds D S known) {e : Failure}
    (he : ∀ f, e = .fault f → f.position = none ∧ S f.path) :
    known.placeFailure e = D.placeFailure e := by
  cases e with
  | misuse m => rfl
  | fault f =>
    obtain ⟨cause, path, position⟩ := f
    obtain ⟨hposition, hpath⟩ := he _ rfl
    obtain rfl : position = none := hposition
    change Failure.fault ⟨_, _, known.nearest? (path.render [])⟩ = .fault ⟨_, _, D.position? path⟩
    rw [(h.knows _ hpath).nearest?_eq h.fits]

lemma Positions.Holds.place_eq {α : Type} {D : Document} {S : Path → Prop} {known : Positions}
    (h : Holds D S known) {x : Outcome α} (hx : x.FaultsAt S) : known.place x = D.place x := by
  cases x with
  | ok a => rfl
  | error e => exact congrArg Except.error (h.placeFailure_eq (hx e rfl))

/-- What is not an array is refused. -/
lemma Json.asItems_of_items?_eq_none {α : Type} {read : Json → Outcome α} {d : Document}
    (h : d.items? = none) :
    d.value.asItems read = refuse (.wrongJsonType "an array" d.value.typeName) := by
  cases hv : d.value with
  | array js => exact (Document.value_ne_array h js hv).elim
  | _ => rfl

namespace Lowering

variable {α β : Type} {D d : Document} {p : Path} {P P' : Positions → Prop} {m : Lowering α}
  {x : Outcome α} {Q Q' : α → Positions → Prop} {S : Path → Prop}

namespace Tracks

lemma mono (h : Tracks D p P m x Q) (hP : ∀ known, P' known → P known)
    (hQ : ∀ a known, x = .ok a → Q a known → Q' a known) : Tracks D p P' m x Q' where
  ok known hknown a ha := by
    obtain ⟨known', hrun, hpost⟩ := h.ok known (hP known hknown) a ha
    exact ⟨known', hrun, hQ a known' ha hpost⟩
  error known hknown := h.error known (hP known hknown)

lemma pure (a : α) : Tracks D p (Q a) (pure a) (.ok a) Q where
  ok known hknown b hb := by
    cases hb
    exact ⟨known, rfl, hknown⟩
  error _ _ _ he := by cases he

lemma skip (a : α) : Tracks D p P (Pure.pure a) (.ok a) fun _ => P := pure (Q := fun _ => P) a

lemma bind {f : α → Lowering β} {g : α → Outcome β} {R : β → Positions → Prop}
    (hm : Tracks D p P m x Q) (hf : ∀ a, x = .ok a → Tracks D p (Q a) (f a) (g a) R) :
    Tracks D p P (m >>= f) (x >>= g) R := by
  have hrun (known : Positions) : (m >>= f) known = m known >>= fun r => f r.1 r.2 := rfl
  -- what the first step leaves known is what the second one starts from
  cases x with
  | error e =>
    refine ⟨fun _ _ _ h => (nomatch h), fun known hknown e' he => ?_⟩
    obtain rfl := Except.error.inj he
    rw [hrun, hm.error known hknown e rfl]
    rfl
  | ok a =>
    constructor
    · intro known hknown b hb
      obtain ⟨known', hm', hpost⟩ := hm.ok known hknown a rfl
      rw [hrun, hm']
      exact (hf a rfl).ok known' hpost b hb
    · intro known hknown e he
      obtain ⟨known', hm', hpost⟩ := hm.ok known hknown a rfl
      rw [hrun, hm']
      exact (hf a rfl).error known' hpost e he

lemma map {f : α → β} {R : β → Positions → Prop} (hm : Tracks D p P m x Q)
    (hQ : ∀ a known, Q a known → R (f a) known) : Tracks D p P (f <$> m) (f <$> x) R := by
  rw [map_eq_pure_bind, map_eq_pure_bind]
  exact hm.bind fun a _ => (pure (f a)).mono (fun known => hQ a known) fun _ _ _ h => h

/-- What is done for a part at a step is done for the whole. -/
lemma under {s : Step} (h : Tracks D (p ++ [s]) P m x Q) :
    Tracks D p P m (Clausal.below [s] x) Q where
  ok known hknown a ha := h.ok known hknown a (below_eq_ok.mp ha)
  error known hknown e he := by
    obtain ⟨e', he', rfl⟩ := Outcome.below_eq_error.mp he
    rw [Failure.under_under]
    exact h.error known hknown e' he'

end Tracks

lemma run_settle {position? : Option Position} {known : Positions} :
    settle p position? x known =
      (known.place ((below p x).mapError (·.locate position?))).map (·, known) := by
  cases x <;> rfl

/-- An outcome whose faults are placed alike tracks itself. -/
lemma Tracks.settle {position? : Option Position}
    (h : ∀ known, P known → x.FailsOnly fun e =>
      known.placeFailure ((e.under p).locate position?) = D.placeFailure (e.under p)) :
    Tracks D p P (Lowering.settle p position? x) x fun _ => P where
  ok known hknown a ha := by
    subst ha
    exact ⟨known, rfl, hknown⟩
  error known hknown e he := by
    subst he
    rw [run_settle]
    exact congrArg Except.error (h known hknown e rfl)

/-- What is made of known parts blames these. -/
lemma Tracks.build (hx : x.FaultsAt fun q => S (p ++ q)) :
    Tracks D p (Holds D S) (build p x) x fun _ => Holds D S := by
  refine .settle fun known hknown e he => ?_
  -- a part that is built gives no position of its own, so the table has to know the path
  have hlocate : (e.under p).locate none = e.under p := by
    cases e with
    | misuse m => rfl
    | fault f =>
      obtain ⟨cause, path, position⟩ := f
      cases position <;> rfl
  change known.placeFailure ((e.under p).locate none) = D.placeFailure (e.under p)
  rw [hlocate]
  refine hknown.placeFailure_eq fun f hf => ?_
  cases e with
  | misuse m => cases hf
  | fault g =>
    cases hf
    exact hx _ he g rfl

/-- Faults at a part have the position at which it starts, or that of another part that lends it
one. -/
lemma Tracks.located (hpath : D.position? p = d.start?)
    (hstart : d.start?.isSome = D.start?.isSome) (hP : ∀ known, P known → known.Fits D)
    (hx : x.FaultsAt (· = [])) : Tracks D p P (Lowering.settle p d.start? x) x fun _ => P := by
  refine .settle fun known hknown e he => ?_
  cases e with
  | misuse m => rfl
  | fault f =>
    obtain ⟨hposition, hfpath⟩ := hx _ he f rfl
    obtain ⟨cause, path, position⟩ := f
    obtain rfl : position = none := hposition
    obtain rfl : path = [] := hfpath
    change Failure.fault ⟨_, p ++ [], d.start?.orElse fun _ => known.nearest? _⟩ =
      .fault ⟨_, _, D.position? (p ++ [])⟩
    rw [List.append_nil, hpath]
    cases hd : d.start? with
    | some start => rfl
    | none =>
      have hD : D.start? = none := by
        rw [← Option.isNone_iff_eq_none]
        simpa [hd] using hstart.symm
      rw [hP known hknown hD, Positions.nearest?_nil]
      rfl

lemma Tracks.fail {cause : Cause} (hpath : D.position? p = d.start?)
    (hstart : d.start?.isSome = D.start?.isSome) (hP : ∀ known, P known → known.Fits D) :
    Tracks D p P (Lowering.fail cause p d) (refuse cause) Q where
  ok _ _ _ ha := nomatch ha
  error := (Tracks.located hpath hstart hP (.refuse rfl)).error

/-! ### Recording -/

lemma run_forM_record {γ : Type} (f : γ → Path) (g : γ → Document) (as : List γ)
    (known : Positions) : (as.forM fun a => record (f a) (g a)) known =
      .ok ((), known.recordAll (as.map fun a => (f a, g a))) := by
  induction as generalizing known with
  | nil => rfl
  | cons a as ih => exact ih (known.record (f a) (g a))

namespace Tracks

/-- A first step that always answers. -/
lemma andThen {a : α} {f : α → Lowering β} {y : Outcome β} {R : β → Positions → Prop}
    (hm : Tracks D p P m (.ok a) Q) (hf : Tracks D p (Q a) (f a) y R) :
    Tracks D p P (m >>= f) y R := by
  have hbind := hm.bind (f := f) (g := fun _ => y) (R := R) fun b hb => by
    obtain rfl := Except.ok.inj hb
    exact hf
  exact hbind

/-- What is recorded is known if nothing else that is recorded is written alike. -/
lemma recordAll {γ : Type} {f : γ → Path} {g : γ → Document} {as : List γ} {S' : Path → Prop}
    (hstart : ∀ a ∈ as, (g a).start?.isSome = D.start?.isSome)
    (hsame : ∀ q, S' q → q.IsPlain → q ≠ [] → ∀ a ∈ as, D.start?.isSome →
      (f a).render [] = q.render [] → D.follow? q = some (g a))
    (hnew : ∀ q, S' q → S q ∨ q.IsPlain ∧ q ≠ [] ∧ ∃ a ∈ as, f a = q ∧ D.follow? q = some (g a)) :
    Tracks D p (Holds D S) (as.forM fun a => record (f a) (g a)) (.ok ())
      fun _ => Holds D S' where
  ok known hknown u _ := by
    -- the records come one after the other, and a later one may overwrite an earlier one
    refine ⟨_, run_forM_record f g as known, hknown.fits.recordAll ?_, fun q hq => ?_⟩
    · exact List.forall_mem_map.mpr hstart
    · have hknows : known.Knows D q ∨ q.IsPlain ∧ q ≠ [] ∧
          ∃ e ∈ as.map fun a => (f a, g a), e.1 = q ∧ D.follow? q = some e.2 := by
        refine (hnew q hq).imp (hknown.knows q) fun ⟨hplain, hne, a, ha, heq⟩ => ?_
        exact ⟨hplain, hne, _, List.mem_map_of_mem ha, heq⟩
      have hshape : q.IsPlain ∧ q ≠ [] :=
        hknows.elim (fun h => ⟨h.isPlain, h.ne_nil⟩) fun h => ⟨h.1, h.2.1⟩
      -- whatever is written like a path that is asked for is recorded with the same part
      refine .recordAll (List.forall_mem_map.mpr fun a ha => ?_) hknows
      exact hsame q hq hshape.1 hshape.2 a ha
  error _ _ _ he := nomatch he

/-- Recording a part again changes nothing. -/
lemma record (hp : p.IsPlain) (hd : D.follow? p = some d) :
    Tracks D p (Holds D S) (Lowering.record p d) (.ok ()) fun _ => Holds D S where
  ok known hknown u _ := by
    have hfits := hknown.fits.record (p := p) (Document.isSome_start?_of_follow? hd)
    refine ⟨_, rfl, hfits, fun q hq => (hknown.knows q hq).record fun _ hsame => ?_⟩
    rwa [← Path.eq_of_render_eq hp (hknown.knows q hq).isPlain hsame]
  error _ _ _ he := nomatch he

end Tracks

/-! ### Lowering parts -/

/-- Wherever a part stands, `lower` does what `read` does with its value. Afterwards the positions
that `after` names below the part are known. -/
def Lowers (D : Document) (lower : Document → Path → Lowering α) (read : Json → Outcome α)
    (after : α → Path → Prop) : Prop :=
  ∀ p d, p.IsPlain → D.follow? p = some d →
    ∀ S : Path → Prop, (∀ q, S q → ¬p.Below q) → (p ≠ [] → S p) →
      Tracks D p (Holds D S) (lower d p) (read d.value)
        fun a => Holds D fun q => S q ∨ ∃ r, after a r ∧ q = p ++ r

/-- Nothing below a part is known. -/
abbrev Nowhere (_ : α) (_ : Path) : Prop := False

namespace Lowers

variable {lower : Document → Path → Lowering α} {read : Json → Outcome α}
  {after : α → Path → Prop}

lemma mono {after' : α → Path → Prop} (h : Lowers D lower read after)
    (hafter : ∀ a r, after' a r → after a r) : Lowers D lower read after' :=
  fun p d hp hd S hS hself => (h p d hp hd S hS hself).mono (fun _ h => h) fun a _ _ hknown =>
    hknown.mono fun _ hq => hq.imp_right fun ⟨r, hr, heq⟩ => ⟨r, hafter a r hr, heq⟩

lemma map {f : α → β} {after' : β → Path → Prop} (h : Lowers D lower read after)
    (hafter : ∀ a r, after' (f a) r → after a r) :
    Lowers D (fun d p => f <$> lower d p) (fun j => f <$> read j) after' :=
  fun p d hp hd S hS hself => (h p d hp hd S hS hself).map fun a _ hknown =>
    hknown.mono fun _ hq => hq.imp_right fun ⟨r, hr, heq⟩ => ⟨r, hafter a r hr, heq⟩

lemma scalar (hread : ∀ j, (read j).FaultsAt (· = [])) :
    Lowers D (scalar read) read Nowhere := by
  intro p d hp hd S hS hself
  have htracks : Tracks D p (Holds D S) (Lowering.scalar read d p) (read d.value)
      fun _ => Holds D S :=
    .located (Document.position?_of_follow? hd) (Document.isSome_start?_of_follow? hd)
      (fun _ h => h.fits) (hread d.value)
  refine htracks.mono (fun _ h => h) fun _ _ _ h => h.mono ?_
  rintro q (hq | ⟨_, hr, -⟩)
  · exact hq
  · exact hr.elim

/-! ### Arrays -/

/-- Below an array the items are known, and what is known below them. -/
def AfterItems (after : α → Path → Prop) (as : List α) (q : Path) : Prop :=
  ∃ i a, as[i]? = some a ∧ (q = [.item i] ∨ ∃ r, after a r ∧ q = .item i :: r)

/-- The items from the `k`-th on are lowered one after the other. What is known before must not lie
below any of them. -/
lemma mapM (h : Lowers D lower read after) (hp : p.IsPlain) {ds : List Document} {k : Nat}
    (hds : ∀ i d, ds[i]? = some d → D.follow? (p ++ [.item (k + i)]) = some d)
    (hS : ∀ q, S q → ∀ i, k ≤ i → ¬Path.Below (p ++ [.item i]) q)
    (hself : ∀ i < ds.length, S (p ++ [.item (k + i)])) :
    Tracks D p (Holds D S)
      ((ds.zipIdx k).mapM fun x => lower x.1 (p ++ [.item x.2]))
      (((ds.map Document.value).zipIdx k).mapM fun x => inItem x.2 (read x.1))
      fun as => Holds D fun q => S q ∨
        ∃ i a r, as[i]? = some a ∧ after a r ∧ q = p ++ .item (k + i) :: r := by
  -- on the items that are left, with the place of the next one
  induction ds generalizing k S with
  | nil =>
    refine (Tracks.pure []).mono (fun _ hknown => hknown.mono ?_) fun _ _ _ h => h
    rintro q (hq | ⟨i, a, r, hi, -⟩)
    · exact hq
    · cases hi
  | cons d ds ih =>
    rw [List.map_cons, List.zipIdx_cons, List.zipIdx_cons, List.mapM_cons, List.mapM_cons]
    have hitem : Path.IsPlain (p ++ [.item k]) := Path.isPlain_concat.mpr ⟨hp, trivial⟩
    have hfirst := (h (p ++ [.item k]) d hitem (hds 0 d rfl) S (fun q hq => hS q hq k le_rfl)
      fun _ => hself 0 (Nat.zero_lt_succ _)).under
    refine hfirst.bind fun a _ => ?_
    have hshift (i : Nat) : k + (i + 1) = k + 1 + i := by omega
    refine (ih (k := k + 1) ?_ ?_ ?_).bind fun as _ => ?_
    · exact fun i d hi => hshift i ▸ hds (i + 1) d hi
    -- the items before are not below the next one, since their places differ
    · rintro q (hq | ⟨r, -, rfl⟩) i hi
      · exact hS q hq i (Nat.le_of_succ_le hi)
      · rintro ⟨hstarts, -⟩
        rw [List.append_assoc, List.prefix_append_right_inj, List.singleton_append,
          List.cons_prefix_cons, Step.item.injEq] at hstarts
        omega
    · exact fun i hi => .inl (hshift i ▸ hself (i + 1) (Nat.succ_lt_succ hi))
    · refine (Tracks.pure (a :: as)).mono (fun _ hknown => hknown.mono ?_) fun _ _ _ h => h
      rintro q (hq | ⟨i, b, r, hi, hr, rfl⟩)
      · exact .inl (.inl hq)
      · cases i with
        | zero =>
          obtain rfl := Option.some.inj hi
          exact .inl (.inr ⟨r, hr, by simp⟩)
        | succ i => exact .inr ⟨i, b, r, hi, hr, by rw [hshift]⟩

/-- An array is lowered if its items are. -/
lemma items (h : Lowers D lower read after) :
    Lowers D (Lowering.items lower) (Json.asItems read) (AfterItems after) := by
  intro p d hp hd S hS hself
  have hstart := Document.isSome_start?_of_follow? hd
  -- first the array itself is recorded, then all its items, and only then are these lowered
  refine (Tracks.record hp hd).andThen ?_
  cases hds : d.items? with
  | none =>
    rw [Json.asItems_of_items?_eq_none hds]
    exact .fail (Document.position?_of_follow? hd) hstart fun _ h => h.fits
  | some ds =>
    have hfollow (i : Nat) (v : Document) (hv : ds[i]? = some v) :
        D.follow? (p ++ [.item i]) = some v := by
      rw [Document.follow?_concat hd, Document.part?_item hds, hv]
    have hplain (i : Nat) : Path.IsPlain (p ++ [.item i]) := Path.isPlain_concat.mpr ⟨hp, trivial⟩
    have hmem {v : Document} {i : Nat} (hv : (v, i) ∈ ds.zipIdx) :
        D.follow? (p ++ [.item i]) = some v := hfollow i v (List.mk_mem_zipIdx_iff_getElem?.mp hv)
    have hrecord : Tracks D p (Holds D S)
        (ds.zipIdx.forM fun x => record (p ++ [.item x.2]) x.1) (.ok ())
        fun _ => Holds D fun q => S q ∨ ∃ i < ds.length, q = p ++ [.item i] := by
      -- plain paths that are written alike are the same, so no item overwrites another
      refine .recordAll (fun x hx => ?_) (fun q _ hq _ x hx _ hsame => ?_) ?_
      · exact Document.isSome_start?_of_follow? (hmem hx)
      · rw [← Path.eq_of_render_eq (hplain x.2) hq hsame]
        exact hmem hx
      · rintro q (hq | ⟨i, hi, rfl⟩)
        · exact .inl hq
        · have hx : (ds[i], i) ∈ ds.zipIdx :=
            List.mk_mem_zipIdx_iff_getElem?.mpr (List.getElem?_eq_getElem hi)
          exact .inr ⟨hplain i, by simp, _, hx, rfl, hmem hx⟩
    rw [Document.value_of_items? hds]
    refine hrecord.andThen ((h.mapM hp ?_ ?_ ?_).mono (fun _ h => h) fun as _ has hknown =>
      hknown.mono ?_)
    · exact fun i d hi => (Nat.zero_add i).symm ▸ hfollow i d hi
    -- lowering an item touches what is below it and nothing else
    · rintro q (hq | ⟨j, -, rfl⟩) i -
      · exact fun hbelow => hS q hq hbelow.of_append
      · rintro ⟨hstarts, hne⟩
        exact hne (List.IsPrefix.eq_of_length hstarts (by simp)).symm
    · exact fun i hi => .inr ⟨i, hi, by rw [Nat.zero_add]⟩
    -- the item itself was recorded before, what is below it on lowering it
    · rintro q (hq | ⟨_, ⟨i, a, ha, rfl | ⟨r, hr, rfl⟩⟩, rfl⟩)
      · exact .inl (.inl hq)
      · have hlength := (Outcome.forItems_eq_ok.mp has).length_eq
        rw [List.length_map] at hlength
        exact .inl (.inr ⟨i, hlength ▸ (List.getElem?_eq_some_iff.mp ha).1, rfl⟩)
      · exact .inr ⟨i, a, r, ha, hr, by simp⟩

end Lowers

end Lowering

end Clausal
