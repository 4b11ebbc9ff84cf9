import Clausal.Proofs.Authoring.Relating

/-!
# The order of members

What a value denotes does not depend on the order of the members in the objects inside it. Where
unknown fields are refused the order decides which of them is named, but not whether one is.
-/

namespace Clausal

variable {config : Config}

/-- The second operation answers what the first does. Unless unknown fields are refused it also
fails as the first does. -/
def Agrees {α : Type} (config : Config) (x y : Outcome α) : Prop :=
  (∀ a, x = .ok a → y = .ok a) ∧ (config.rejectUnknownFields = false → x = y)

namespace Agrees

variable {α β : Type} {x y : Outcome α}

lemma refl (x : Outcome α) : Agrees config x x := ⟨fun _ => id, fun _ => rfl⟩

lemma bind {f g : α → Outcome β} (hx : Agrees config x y) (hf : ∀ a, Agrees config (f a) (g a)) :
    Agrees config (x >>= f) (y >>= g) := by
  refine ⟨fun b hb => ?_, fun hc => ?_⟩
  · obtain ⟨a, ha, hb⟩ := Outcome.bind_eq_ok.mp hb
    exact Outcome.bind_eq_ok.mpr ⟨a, hx.1 a ha, (hf a).1 b hb⟩
  · rw [hx.2 hc, funext fun a => (hf a).2 hc]

lemma below (steps : Path) (hx : Agrees config x y) :
    Agrees config (Clausal.below steps x) (Clausal.below steps y) :=
  ⟨fun a ha => below_eq_ok.mpr (hx.1 a (below_eq_ok.mp ha)), fun hc => by rw [hx.2 hc]⟩

lemma checkFields {ms ns : Members} (h : Members.Same ms ns) (fields : List String) :
    Agrees config (Members.checkFields config fields ms)
      (Members.checkFields config fields ns) := by
  refine ⟨fun u hu => ?_, fun hc => by simp [Members.checkFields, hc]⟩
  rw [Members.checkFields_eq_ok_iff] at hu ⊢
  exact fun hreject => h.forall_mem_iff.mp (hu hreject)

/-- Two readings of one value in one configuration agree, whatever the order of its members. -/
lemma relates : Relates config config fun _ => Agrees config :=
  ⟨refl, bind, below, checkFields⟩

end Agrees

/-- The reader answers alike for values that are the same up to the order of members. -/
def Orderless {α : Type} (config : Config) (read : Json → Outcome α) : Prop :=
  ∀ j k, Json.Same j k → Agrees config (read j) (read k)

/-- What a value denotes in a role does not depend on the order of members. -/
lemma Role.orderless_ofJson (r : Role) : Orderless config fun j => r.ofJson config j :=
  Agrees.relates.role r

end Clausal
