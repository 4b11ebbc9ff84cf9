import Clausal.Proofs.Authoring.Members
import Mathlib.Data.List.TakeWhile

/-!
# Written paths

A path whose field names hold none of the characters that separate steps can be told from its text.
The names of unknown members can be anything, so paths that end in one are excepted. A field without
a name leaves no trace at the front of a written path.
-/

namespace Clausal

/-- A name that holds no character with a meaning of its own in paths. -/
def Text.IsPlain (t : Text) : Prop := t ≠ [] ∧ ∀ c ∈ t, c ≠ .scalar '.' ∧ c ≠ .scalar '['

instance (t : Text) : Decidable t.IsPlain := inferInstanceAs (Decidable (_ ∧ _))

/-- A step to an item, or to a field with a plain name. -/
def Step.IsPlain : Step → Prop
  | field name => name.IsPlain
  | item _ => True

/-- A path whose field names are all plain. -/
def Path.IsPlain (p : Path) : Prop := ∀ s ∈ p, s.IsPlain

lemma Path.isPlain_nil : IsPlain [] := List.forall_mem_nil _

/-! ### Numbers -/

namespace Text

lemma ofNat_eq (n : Nat) : ofNat n = ofChars (Nat.toDigits 10 n) := by
  rw [ofNat, ofString, Nat.toString_eq_repr, Nat.toList_repr]

lemma ofNat_injective : Function.Injective ofNat := by
  intro m n h
  have hdigits : Nat.toDigits 10 m = Nat.toDigits 10 n := by
    rwa [ofNat_eq, ofNat_eq, ofChars_inj] at h
  calc
    m = Nat.ofDigitChars 10 (Nat.toDigits 10 m) 0 := Nat.ofDigitChars_ten_toDigits.symm
    _ = Nat.ofDigitChars 10 (Nat.toDigits 10 n) 0 := by rw [hdigits]
    _ = n := Nat.ofDigitChars_ten_toDigits

lemma ne_bracket_of_mem_ofNat {n : Nat} {c : CodePoint} (hc : c ∈ ofNat n) : c ≠ .scalar ']' := by
  rw [ofNat_eq, ofChars, List.mem_map] at hc
  obtain ⟨d, hd, rfl⟩ := hc
  rintro ⟨rfl⟩
  exact absurd (Nat.isDigit_of_mem_toDigits (by decide) (by decide) hd) (by decide)

end Text

/-! ### Steps -/

/-- What two lists start with is told apart by the first item that `p` holds of, if the lists go
on with such an item or end. -/
lemma append_inj_of_stop {α : Type} {p : α → Bool} {as bs xs ys : List α}
    (has : ∀ a ∈ as, p a = false) (hbs : ∀ b ∈ bs, p b = false)
    (hxs : ∀ x ∈ xs.head?, p x = true) (hys : ∀ y ∈ ys.head?, p y = true)
    (h : as ++ xs = bs ++ ys) : as = bs ∧ xs = ys := by
  have htake {cs zs : List α} (hcs : ∀ c ∈ cs, p c = false)
      (hzs : ∀ z ∈ zs.head?, p z = true) : (cs ++ zs).takeWhile (fun a => !p a) = cs := by
    rw [List.takeWhile_append_of_pos (by simpa using hcs)]
    cases zs with
    | nil => simp
    | cons z zs => simp [hzs z rfl]
  have heq : as = bs := by rw [← htake has hxs, h, htake hbs hys]
  exact ⟨heq, List.append_cancel_left (heq ▸ h)⟩

/-- The text of a step behind another one. -/
def Step.text : Step → Text
  | field name => .scalar '.' :: name
  | item i => .scalar '[' :: (Text.ofNat i ++ [.scalar ']'])

lemma Step.render_of_ne_nil {base : Text} {s : Step} (h : base ≠ []) (hs : s.IsPlain) :
    s.render base = base ++ s.text := by
  cases s with
  | field name =>
    have hbracket : name.head? ≠ some (.scalar '[') := fun hhead =>
      (hs.2 _ (List.mem_of_mem_head? hhead)).2 rfl
    have hjoin : (base.isEmpty || name.head? == some (.scalar '[')) = false := by
      rw [Bool.or_eq_false_iff, beq_eq_false_iff_ne, List.isEmpty_eq_false_iff]
      exact ⟨h, hbracket⟩
    rw [render, joinPath, hjoin, if_neg Bool.false_ne_true, List.append_assoc]
    rfl
  | item i =>
    rw [render, List.append_assoc, List.append_assoc]
    rfl

/-- Texts of steps that something else follows are the same only if the steps are. -/
lemma Step.text_inj {s t : Step} (hs : s.IsPlain) (ht : t.IsPlain) {xs ys : Text}
    (hxs : ∀ x ∈ xs.head?, x.endsName = true) (hys : ∀ y ∈ ys.head?, y.endsName = true)
    (h : s.text ++ xs = t.text ++ ys) : s = t ∧ xs = ys := by
  -- a plain name goes on as far as no dot or bracket stops it
  have hname {name : Text} (hname : name.IsPlain) : ∀ c ∈ name, c.endsName = false := by
    intro c hc
    simp [CodePoint.endsName, hname.2 c hc]
  cases s with
  | field m =>
    cases t with
    | field n =>
      obtain ⟨rfl, rfl⟩ := append_inj_of_stop (hname hs) (hname ht) hxs hys (List.cons.inj h).2
      exact ⟨rfl, rfl⟩
    | item j => simp [text] at h
  | item i =>
    cases t with
    | field n => simp [text] at h
    | item j =>
      -- the digits of an index stop at the bracket that closes it
      have hdigits (n : Nat) : ∀ c ∈ Text.ofNat n, (c == .scalar ']') = false :=
        fun c hc => beq_eq_false_iff_ne.mpr (Text.ne_bracket_of_mem_ofNat hc)
      have hclosed : Text.ofNat i ++ .scalar ']' :: xs = Text.ofNat j ++ .scalar ']' :: ys := by
        simpa [text] using h
      obtain ⟨hij, hrest⟩ := append_inj_of_stop (p := (· == .scalar ']')) (hdigits i) (hdigits j)
        (by simp) (by simp) hclosed
      exact ⟨by rw [Text.ofNat_injective hij], (List.cons.inj hrest).2⟩

/-! ### What is written for a path -/

lemma joinPath_eq_nil_iff {base name : Text} : joinPath base name = [] ↔ base = [] ∧ name = [] := by
  unfold joinPath
  split
  · rw [List.append_eq_nil_iff]
  · next h => simp_all

/-- A name is written alone exactly where nothing is written before it. -/
lemma joinPath_eq_right_iff {base name : Text} : joinPath base name = name ↔ base = [] := by
  constructor
  · intro h
    have hlength : base.length + name.length ≤ (joinPath base name).length := by
      unfold joinPath
      split <;> simp only [List.length_append] <;> omega
    rw [h] at hlength
    exact List.length_eq_zero_iff.mp (by omega)
  · rintro rfl
    rfl

lemma Step.render_eq_nil_iff {base : Text} {s : Step} :
    s.render base = [] ↔ base = [] ∧ s = .field [] := by
  cases s with
  | field name => rw [render, joinPath_eq_nil_iff, field.injEq]
  | item i =>
    have hopen : ("[" : Text) ≠ [] := List.cons_ne_nil _ _
    simp [render, hopen]

namespace Path

variable {p q : Path} {base : Text}

lemma render_concat (p : Path) (s : Step) : render base (p ++ [s]) = s.render (p.render base) := by
  rw [render, List.foldl_append]
  rfl

/-- Nothing is written for fields without a name, and only for these. -/
lemma render_eq_nil_iff : p.render base = [] ↔ base = [] ∧ ∀ s ∈ p, s = .field [] := by
  induction p generalizing base with
  | nil => simp [render]
  | cons s p ih =>
    change Path.render (s.render base) p = [] ↔ _
    rw [ih, Step.render_eq_nil_iff, List.forall_mem_cons, and_assoc]

/-- The name of a field is written like the path that ends in it exactly if nothing is written for
the steps above. -/
lemma render_concat_eq_iff {above : Path} {name : Text} :
    render [] (above ++ [.field name]) = render [] [.field name] ↔ ∀ s ∈ above, s = .field [] := by
  rw [render_concat]
  change joinPath (render [] above) name = name ↔ _
  rw [joinPath_eq_right_iff, render_eq_nil_iff, eq_self, true_and]

/-! ### Plain paths -/

lemma endsName_head_flatMap : ∀ c ∈ (p.flatMap Step.text).head?, c.endsName = true := by
  cases p with
  | nil => simp
  | cons s p =>
    intro c hc
    cases s <;> cases hc <;> rfl

/-- Behind some text every step is written out. -/
lemma render_of_ne_nil (h : base ≠ []) (hp : p.IsPlain) :
    p.render base = base ++ p.flatMap Step.text := by
  induction p generalizing base with
  | nil => simp [render]
  | cons s p ih =>
    obtain ⟨hs, hp⟩ := List.forall_mem_cons.mp hp
    change Path.render (s.render base) p = _
    rw [Step.render_of_ne_nil h hs, ih (by simp [h]) hp, List.flatMap_cons, List.append_assoc]

lemma flatMap_text_inj (hp : p.IsPlain) (hq : q.IsPlain)
    (h : p.flatMap Step.text = q.flatMap Step.text) : p = q := by
  -- on both paths: the first steps agree, and what is left starts a step or ends
  induction p generalizing q with
  | nil =>
    cases q with
    | nil => rfl
    | cons t q => cases t <;> simp [Step.text] at h
  | cons s p ih =>
    cases q with
    | nil => cases s <;> simp [Step.text] at h
    | cons t q =>
      obtain ⟨hs, hp'⟩ := List.forall_mem_cons.mp hp
      obtain ⟨ht, hq'⟩ := List.forall_mem_cons.mp hq
      obtain ⟨rfl, htail⟩ := Step.text_inj hs ht endsName_head_flatMap endsName_head_flatMap h
      rw [ih hp' hq' htail]

lemma render_cons {s : Step} (hs : s.IsPlain) (hp : p.IsPlain) :
    render [] (s :: p) = s.render [] ++ p.flatMap Step.text := by
  refine render_of_ne_nil ?_ hp
  cases s with
  | field name => exact hs.1
  | item i => exact List.cons_ne_nil _ _

/-- The first step is written without the point. -/
lemma cons_inj {s t : Step} (hs : s.IsPlain) (ht : t.IsPlain) {xs ys : Text}
    (hxs : ∀ x ∈ xs.head?, x.endsName = true) (hys : ∀ y ∈ ys.head?, y.endsName = true)
    (h : s.render [] ++ xs = t.render [] ++ ys) : s = t ∧ xs = ys := by
  have hmixed {name xs ys : Text} {i : Nat} (hname : name.IsPlain)
      (h : name ++ xs = (Step.item i).text ++ ys) : False := by
    obtain ⟨c, name, rfl⟩ := List.exists_cons_of_ne_nil hname.1
    exact (hname.2 c List.mem_cons_self).2 (List.cons.inj h).1
  cases s with
  | field m =>
    cases t with
    | field n =>
      have hname : m ++ xs = n ++ ys := h
      exact Step.text_inj hs ht hxs hys (congrArg (List.cons (CodePoint.scalar '.')) hname)
    | item j => exact (hmixed hs h).elim
  | item i =>
    cases t with
    | field n => exact (hmixed ht h.symm).elim
    | item j => exact Step.text_inj hs ht hxs hys h

/-- Plain paths are told apart by their texts. -/
lemma eq_of_render_eq (hp : p.IsPlain) (hq : q.IsPlain) (h : p.render [] = q.render []) :
    p = q := by
  have hne {s : Step} {p : Path} (hp : IsPlain (s :: p)) : render [] (s :: p) ≠ [] := by
    obtain ⟨hs, hp⟩ := List.forall_mem_cons.mp hp
    rw [render_cons hs hp]
    cases s with
    | field name => exact fun h => hs.1 (List.append_eq_nil_iff.mp h).1
    | item i => exact List.cons_ne_nil _ _
  cases p with
  | nil =>
    cases q with
    | nil => rfl
    | cons t q => exact (hne hq h.symm).elim
  | cons s p =>
    cases q with
    | nil => exact (hne hp h).elim
    | cons t q =>
      obtain ⟨hs, hp'⟩ := List.forall_mem_cons.mp hp
      obtain ⟨ht, hq'⟩ := List.forall_mem_cons.mp hq
      rw [render_cons hs hp', render_cons ht hq'] at h
      obtain ⟨rfl, htail⟩ := cons_inj hs ht endsName_head_flatMap endsName_head_flatMap h
      rw [flatMap_text_inj hp' hq' htail]

end Path

end Clausal
