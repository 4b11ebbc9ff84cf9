import Clausal.Proofs.Json.Reading
import Clausal.Proofs.Json.Writing

/-!
# Neat texts

The canonical layout writes tidy values in printable ASCII, and what it writes outside strings holds
no white space. What stands outside strings is found by following quotation marks and backslashes
alone, so that it means something for every text.
-/

namespace Clausal

/-! ### What stands outside strings -/

namespace Text

mutual

/-- The code points of a text that stand outside its strings, quotation marks left out. -/
def outside : Text → Text
  | [] => []
  | c :: t => if c = .scalar '\x22' then outsideFrom t else c :: outside t

/-- The code points that stand outside the strings of a text that starts inside one. -/
def outsideFrom : Text → Text
  | [] | [_] => []
  | c :: d :: t =>
    if c = .scalar '\x22' then outside (d :: t)
    else if c = .scalar '\\' then outsideFrom t
    else outsideFrom (d :: t)

end

@[simp] lemma outside_nil : outside [] = [] := by rw [outside]

lemma outside_quote (t : Text) : outside (.scalar '\x22' :: t) = outsideFrom t := by
  rw [outside, if_pos rfl]

lemma outside_of_ne {c : CodePoint} (hc : c ≠ .scalar '\x22') (t : Text) :
    outside (c :: t) = c :: outside t := by
  rw [outside, if_neg hc]

lemma outsideFrom_quote (t : Text) : outsideFrom (.scalar '\x22' :: t) = outside t := by
  cases t with
  | nil => rw [outsideFrom, outside]
  | cons c t => rw [outsideFrom, if_pos rfl]

lemma outsideFrom_escape (c : CodePoint) (t : Text) :
    outsideFrom (.scalar '\\' :: c :: t) = outsideFrom t := by
  rw [outsideFrom, if_neg (by decide), if_pos rfl]

lemma outsideFrom_of_ne {c : CodePoint} (hquote : c ≠ .scalar '\x22') (hslash : c ≠ .scalar '\\')
    (t : Text) : outsideFrom (c :: t) = outsideFrom t := by
  cases t with
  | nil => rw [outsideFrom, outsideFrom]
  | cons d t => rw [outsideFrom, if_neg hquote, if_neg hslash]

end Text

/-! ### Neat texts -/

/-- A printable character of ASCII. -/
def CodePoint.Printable (c : CodePoint) : Prop := 0x20 ≤ c.toNat ∧ c.toNat ≤ 0x7e

instance (c : CodePoint) : Decidable c.Printable := inferInstanceAs (Decidable (_ ∧ _))

namespace Text

/-- The text is printable ASCII; strings that start in it end in it, and outside of them there is no
white space. -/
structure Neat (s : Text) : Prop where
  printable : ∀ c ∈ s, c.Printable
  solid : ∃ x : Text, (∀ c ∈ x, CodePoint.isGap c = false) ∧ ∀ t, outside (s ++ t) = x ++ outside t

namespace Neat

lemma append {s t : Text} (hs : s.Neat) (ht : t.Neat) : (s ++ t).Neat := by
  obtain ⟨x, hx, hsx⟩ := hs.solid
  obtain ⟨y, hy, hty⟩ := ht.solid
  -- what is left of both outside strings is what is left of each, since the first ends outside
  refine ⟨fun c hc => ?_, x ++ y, fun c hc => ?_, fun u => ?_⟩
  · rcases List.mem_append.mp hc with hc | hc
    · exact hs.printable c hc
    · exact ht.printable c hc
  · rcases List.mem_append.mp hc with hc | hc
    · exact hx c hc
    · exact hy c hc
  · rw [List.append_assoc, hsx, hty, List.append_assoc]

/-- Printable characters other than the space and the quotation mark are neat. -/
lemma of_printable {s : Text} (h : ∀ c ∈ s, c.Printable ∧ c ≠ .scalar ' ' ∧ c ≠ .scalar '\x22') :
    s.Neat := by
  refine ⟨fun c hc => (h c hc).1, s, fun c hc => ?_, fun t => ?_⟩
  · by_contra hgap
    rw [Bool.not_eq_false, CodePoint.isGap_iff] at hgap
    obtain ⟨⟨hprintable, -⟩, hspace, -⟩ := h c hc
    rcases hgap with rfl | rfl | rfl | rfl
    · exact hspace rfl
    all_goals exact absurd hprintable (by decide)
  · induction s with
    | nil => rfl
    | cons c s ih =>
      obtain ⟨hc, hs⟩ := List.forall_mem_cons.mp h
      rw [List.cons_append, outside_of_ne hc.2.2, ih hs, List.cons_append]

lemma nil : Neat [] := of_printable nofun

lemma isGap_outside {s : Text} (h : s.Neat) : ∀ c ∈ s.outside, CodePoint.isGap c = false := by
  obtain ⟨x, hx, houtside⟩ := h.solid
  have := houtside []
  rw [List.append_nil, outside_nil, List.append_nil] at this
  rwa [this]

lemma intercalate {sep : Text} {items : List Text} (hsep : sep.Neat) (h : ∀ s ∈ items, s.Neat) :
    Neat (List.intercalate sep items) := by
  -- separators stand between items only, so the last item is a case of its own
  induction items with
  | nil => exact .nil
  | cons s items ih =>
    obtain ⟨hs, hitems⟩ := List.forall_mem_cons.mp h
    cases items with
    | nil => simpa using hs
    | cons t items =>
      rw [List.intercalate_cons_cons]
      exact (hs.append hsep).append (ih hitems)

end Neat

end Text

/-! ### Canonical texts are neat -/

namespace Text

lemma Neat.ofInt (n : Int) : Neat (Text.ofInt n) := by
  rw [ofInt_eq]
  refine .append ?_ ?_
  · split
    · exact .of_printable (by decide)
    · exact .nil
  · obtain ⟨ds, -, -, hds⟩ := exists_decimal n.natAbs
    rw [← hds]
    have hdigit : ∀ d : Digit, d.codePoint.Printable ∧ d.codePoint ≠ .scalar ' ' ∧
        d.codePoint ≠ .scalar '\x22' := by decide
    exact .of_printable (List.forall_mem_map.mpr fun d _ => hdigit d)

/-- The text is printable ASCII, and a string goes on behind it. -/
structure InString (s : Text) : Prop where
  printable : ∀ c ∈ s, c.Printable
  closed : ∀ t, outsideFrom (s ++ t) = outsideFrom t

lemma InString.append {s t : Text} (hs : s.InString) (ht : t.InString) : (s ++ t).InString where
  printable c hc := by
    rcases List.mem_append.mp hc with hc | hc
    · exact hs.printable c hc
    · exact ht.printable c hc
  closed u := by rw [List.append_assoc, hs.closed, ht.closed]

lemma InString.short {c : CodePoint} (hc : c.Printable) : InString [.scalar '\\', c] where
  printable := by simpa using And.intro (by decide) hc
  closed := outsideFrom_escape c

lemma InString.unitEscape (n : Nat) : InString (Json.unitEscape n) := by
  have hdigit : ∀ n : Fin 16, (CodePoint.scalar (hexDigit n)).Printable ∧
      CodePoint.scalar (hexDigit n) ≠ .scalar '\x22' ∧
      CodePoint.scalar (hexDigit n) ≠ .scalar '\\' := by decide
  have hmod (k : Nat) := hdigit ⟨k % 16, Nat.mod_lt _ (by decide)⟩
  rw [StringPart.unitEscape_eq]
  refine ⟨?_, fun t => ?_⟩
  · have hslash : (CodePoint.scalar '\\').Printable := by decide
    have hletter : (CodePoint.scalar 'u').Printable := by decide
    simp [hslash, hletter, (hmod _).1]
  · simp only [List.cons_append, List.nil_append]
    rw [outsideFrom_escape, outsideFrom_of_ne (hmod _).2.1 (hmod _).2.2,
      outsideFrom_of_ne (hmod _).2.1 (hmod _).2.2, outsideFrom_of_ne (hmod _).2.1 (hmod _).2.2,
      outsideFrom_of_ne (hmod _).2.1 (hmod _).2.2]

lemma InString.renderPoint (c : CodePoint) : InString (Json.renderPoint true c) := by
  unfold Json.renderPoint
  split_ifs with quote backslash newline carriage tab backspace feed number
  · exact .short (c := .scalar '\x22') (by decide)
  · exact .short (c := .scalar '\\') (by decide)
  · exact .short (c := .scalar 'n') (by decide)
  · exact .short (c := .scalar 'r') (by decide)
  · exact .short (c := .scalar 't') (by decide)
  · exact .short (c := .scalar 'b') (by decide)
  · exact .short (c := .scalar 'f') (by decide)
  · unfold Json.unitEscapes
    split
    · exact .unitEscape _
    · exact (unitEscape _).append (.unitEscape _)
  · refine ⟨?_, outsideFrom_of_ne quote backslash⟩
    simp only [Bool.true_and, Bool.or_eq_true, decide_eq_true_eq, not_or, Nat.not_lt] at number
    simpa [CodePoint.Printable] using number

lemma Neat.renderString (t : Text) : Neat (Json.renderString true t) := by
  have hbody : InString (t.flatMap (Json.renderPoint true)) := by
    induction t with
    | nil => exact ⟨nofun, fun _ => rfl⟩
    | cons c t ih => exact (InString.renderPoint c).append ih
  have hquote : (CodePoint.scalar '\x22').Printable := by decide
  refine ⟨fun c hc => ?_, [], nofun, fun u => ?_⟩
  · simp only [Json.renderString, List.cons_append, List.mem_cons, List.mem_append,
      List.not_mem_nil, or_false] at hc
    rcases hc with rfl | hc | rfl
    · exact hquote
    · exact hbody.printable c hc
    · exact hquote
  · rw [Json.renderString, List.cons_append, List.cons_append, outside_quote, List.append_assoc,
      hbody.closed, List.singleton_append, outsideFrom_quote, List.nil_append]

end Text

namespace Json

open Text (Neat)

lemma neat_renderItems {level : Nat} {first last : Char} {items : List Text}
    (hfirst : Neat [.scalar first]) (hlast : Neat [.scalar last]) (h : ∀ s ∈ items, Neat s) :
    Neat (renderItems .canonical level first last items) := by
  cases items with
  | nil => exact hfirst.append hlast
  | cons s items =>
    have hcomma : Neat [.scalar ','] := .of_printable (by decide)
    rw [renderItems_cons]
    exact (hfirst.append (.append (.append .nil (.intercalate hcomma h)) .nil)).append hlast

lemma Tidy.neat_render {n : Nat} {j : Json} (h : Tidy n j) (level : Nat) :
    Neat (j.render .canonical level) := by
  -- on what makes the value tidy; separators and brackets are printable without blanks
  induction h generalizing level with
  | null =>
    rw [render]
    exact .of_printable (by decide)
  | bool b =>
    rw [render]
    cases b <;> exact .of_printable (by decide)
  | int =>
    rw [render]
    exact .ofInt _
  | string cs =>
    rw [render]
    exact .renderString _
  | array _ ih =>
    rw [render]
    exact neat_renderItems (.of_printable (by decide)) (.of_printable (by decide))
      (List.forall_mem_map.mpr fun j hj => ih j hj _)
  | object _ _ _ ih =>
    rw [render]
    have hcolon : Neat JsonLayout.canonical.nameSeparator := .of_printable (by decide)
    exact neat_renderItems (.of_printable (by decide)) (.of_printable (by decide))
      (List.forall_mem_map.mpr fun m hm =>
        .append (.append (.renderString _) hcolon) (ih m hm _))

end Json

end Clausal
