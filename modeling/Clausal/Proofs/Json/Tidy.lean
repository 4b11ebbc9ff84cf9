import Clausal.Json.Printer
import Clausal.Proofs.Json.Resolving

/-!
# Tidy values

Values that can be written as texts and loaded from them again: they hold no fractions, no
surrogates and no integers too long to be shown, and no object in them repeats a name.
-/

namespace Clausal.Json

/-- A tidy value of at most the given height. -/
inductive Tidy : Nat → Json → Prop
  | null {n : Nat} : Tidy (n + 1) .null
  | bool {n : Nat} (b : Bool) : Tidy (n + 1) (.bool b)
  | int {n : Nat} {i : Int} (short : i.natAbs < integerLimit) : Tidy (n + 1) (.int i)
  | string {n : Nat} (cs : List Char) : Tidy (n + 1) (.string (Text.ofChars cs))
  | array {n : Nat} {js : List Json} (items : ∀ j ∈ js, Tidy n j) : Tidy (n + 1) (.array js)
  | object {n : Nat} {ms : List (Text × Json)} (names : ∀ m ∈ ms, ∃ cs, m.1 = Text.ofChars cs)
      (distinct : (ms.map Prod.fst).Nodup) (values : ∀ m ∈ ms, Tidy n m.2) :
      Tidy (n + 1) (.object ms)

namespace Tidy

variable {n : Nat} {j : Json}

lemma loadable (h : Tidy n j) : j.Loadable := by
  induction h with
  | null | bool | string => exact loadable_iff.mpr ⟨by simp, by simp, by simp [parts]⟩
  | int short => exact loadable_iff.mpr ⟨by simp, by simpa using short, by simp [parts]⟩
  | array _ ih => exact loadable_iff.mpr ⟨by simp, by simp, ih⟩
  | object names distinct _ ih =>
    exact loadable_iff.mpr ⟨by simpa using distinct, by simp, List.forall_mem_map.mpr ih⟩

lemma height_le (h : Tidy n j) : j.height ≤ n := by
  induction h with
  | null | bool | int | string => exact height_le_succ_iff.mpr (by simp [parts])
  | array _ ih => exact height_le_succ_iff.mpr ih
  | object _ _ _ ih => exact height_le_succ_iff.mpr (List.forall_mem_map.mpr ih)

/-- A test that no scalar of the kinds in tidy values passes is passed nowhere in them. -/
lemma any_eq_false (h : Tidy n j) {test : Json → Bool} (hnull : test .null = false)
    (hbool : ∀ b, test (.bool b) = false)
    (hint : ∀ i : Int, i.natAbs < integerLimit → test (.int i) = false)
    (hstring : ∀ t, test (.string t) = false) : j.any test = false := by
  induction h with
  | null => simpa [any] using hnull
  | bool b => simpa [any] using hbool b
  | int short => simpa [any] using hint _ short
  | string cs => simpa [any] using hstring _
  | array _ ih => simpa [any] using ih
  | object _ _ _ ih => simpa [any] using ih

/-- Tidy values have a text in every layout. -/
lemma toText_eq (h : Tidy n j) (l : JsonLayout) : j.toText l = .ok (j.render l 0) := by
  have hfraction : j.any isFraction = false :=
    h.any_eq_false rfl (fun _ => rfl) (fun _ _ => rfl) fun _ => rfl
  have hlong : j.any isLongInteger = false :=
    h.any_eq_false rfl (fun _ => rfl) (fun i hi => by simpa [isLongInteger] using hi) fun _ => rfl
  simp [toText, hfraction, hlong]

end Tidy

end Clausal.Json
