import Clausal.Proofs.Json.Trees
import Clausal.Proofs.Outcome

/-!
# Resolving trees

A tree resolves to the value that it spells exactly if no object inside repeats a name and no
integer inside is too long; otherwise it is refused for one of these reasons.
-/

namespace Clausal

/-! ### Integers -/

lemma Digit.value_eq_ofDigits (ds : List Digit) :
    value ds = Nat.ofDigits 10 (ds.reverse.map Fin.val) := by
  rw [Nat.ofDigits_eq_foldr, List.foldr_map, List.foldr_reverse, value]
  congr 1
  funext n d
  simp only [Nat.cast_id]
  omega

lemma Digit.value_cons (d : Digit) (ds : List Digit) :
    value (d :: ds) = value ds + 10 ^ ds.length * d.val := by
  simp [value_eq_ofDigits, Nat.ofDigits_append]

lemma Digit.value_lt (ds : List Digit) : value ds < 10 ^ ds.length := by
  have := Nat.ofDigits_lt_base_pow_length (b := 10) (l := ds.reverse.map Fin.val) (by decide)
    (by simp)
  rw [value_eq_ofDigits]
  simpa using this

lemma integerLimit_eq : integerLimit = 10 ^ maxIntegerDigits := by
  unfold integerLimit
  generalize maxIntegerDigits = n
  rfl

lemma thousand_lt_integerLimit : 1000 < integerLimit := by
  have hdigits : 3 < maxIntegerDigits := by decide
  rw [integerLimit_eq]
  exact Nat.pow_lt_pow_right (a := 10) (by decide) hdigits

namespace NumberLiteral

/-- A bound on the digits before the point is a bound on the number that they spell. -/
lemma WellFormed.value_whole_lt_iff {l : NumberLiteral} (hl : l.WellFormed) {n : Nat} (hn : 0 < n) :
    Digit.value l.whole < 10 ^ n ↔ l.whole.length ≤ n := by
  have hwhole := hl.whole
  generalize l.whole = whole at hwhole ⊢
  cases hwhole with
  | zero => exact iff_of_true (Nat.pow_pos (by decide)) hn
  | @positive d ds hd =>
    constructor
    · intro hvalue
      -- one digit more than `n`, the first of them not zero, is worth `10 ^ n` at least
      by_contra hlength
      have hpow : 10 ^ n ≤ 10 ^ ds.length :=
        Nat.pow_le_pow_right (by decide) (by simpa [Nat.lt_succ_iff] using hlength)
      have hdigit : 10 ^ ds.length ≤ 10 ^ ds.length * d.val :=
        Nat.le_mul_of_pos_right _ (Nat.pos_of_ne_zero (Fin.val_ne_zero_iff.mpr hd))
      rw [Digit.value_cons] at hvalue
      omega
    · intro hlength
      exact Nat.lt_of_lt_of_le (Digit.value_lt _) (Nat.pow_le_pow_right (by decide) hlength)

lemma isInteger_iff {l : NumberLiteral} :
    l.isInteger = true ↔ l.fraction = none ∧ l.exponent = none := by
  simp [isInteger]

lemma natAbs_toInt (l : NumberLiteral) : l.toInt.natAbs = Digit.value l.whole := by
  unfold toInt
  split <;> simp

lemma json_of_isInteger {l : NumberLiteral} (h : l.isInteger = true) : l.json = .int l.toInt := by
  rw [json, if_pos (isInteger_iff.mp h), toInt, Digit.value_eq_ofDigits]

lemma json_of_not_isInteger {l : NumberLiteral} (h : ¬l.isInteger = true) :
    l.json = .float l.toDouble := by
  rw [json, if_neg (mt isInteger_iff.mpr h)]

end NumberLiteral

/-! ### Outcomes of resolving -/

/-- The operation answers, with a value that satisfies `P`, if `Q` holds, and otherwise is refused
for a repeated name or a long integer. -/
def Settles {α : Type} (x : Outcome α) (P : α → Prop) (Q : Prop) : Prop :=
  (Q ∧ ∃ a, x = .ok a ∧ P a) ∨
    (¬Q ∧ ∃ f : Fault, x = .error (.fault f) ∧
      (f.cause.kind = .duplicateName ∨ f.cause.kind = .documentTooLarge))

namespace Settles

variable {α β : Type} {P : α → Prop} {P' : β → Prop} {Q Q' : Prop}

lemma ok {a : α} (ha : P a) (hQ : Q) : Settles (.ok a) P Q := .inl ⟨hQ, a, rfl, ha⟩

lemma bind {x : Outcome α} {f : α → Outcome β} (hx : Settles x P Q)
    (hf : ∀ a, P a → Settles (f a) P' Q') : Settles (x >>= f) P' (Q ∧ Q') := by
  rcases hx with ⟨hQ, a, rfl, ha⟩ | ⟨hQ, e, rfl, he⟩
  · rcases hf a ha with ⟨hQ', b, hb, hP⟩ | ⟨hQ', e, he, hkind⟩
    · exact .inl ⟨⟨hQ, hQ'⟩, b, hb, hP⟩
    · exact .inr ⟨fun h => hQ' h.2, e, he, hkind⟩
  · exact .inr ⟨fun h => hQ h.1, e, rfl, he⟩

lemma congr {R : Prop} {x : Outcome α} (hx : Settles x P Q) (h : Q ↔ R) : Settles x P R := by
  rwa [Settles, ← h]

lemma mono {R : α → Prop} {x : Outcome α} (hx : Settles x P Q) (h : ∀ a, P a → R a) :
    Settles x R Q := by
  rcases hx with ⟨hQ, a, ha, hP⟩ | hx
  · exact .inl ⟨hQ, a, ha, h a hP⟩
  · exact .inr hx

end Settles

/-! ### Values of trees -/

/-- The value can be loaded: names are distinct and integers short. -/
def Json.Loadable (j : Json) : Prop := j.Distinct ∧ j.Short

lemma Json.loadable_iff {j : Json} : j.Loadable ↔ (∀ ms, j = .object ms → (ms.map Prod.fst).Nodup) ∧
    (∀ n, j = .int n → n.natAbs < integerLimit) ∧ ∀ p ∈ j.parts, p.Loadable := by
  simp only [Loadable, distinct_iff (j := j), short_iff (j := j), forall_and]
  tauto

/-- A tree is resolved to the value that it spells if that can be loaded. -/
def Tree.Resolves (t : Tree) : Prop :=
  Settles t.resolve (fun l => l.plain = t.json) t.json.Loadable

namespace Tree

lemma settles_resolveNumber (s : Position) {l : NumberLiteral} (hl : l.WellFormed) :
    Settles (Located.ofNumber s l) (fun v => v.plain = l.json) l.json.Loadable := by
  unfold Located.ofNumber
  split
  · next hinteger =>
    have hjson := NumberLiteral.json_of_isInteger hinteger
    have hshort : l.json.Loadable ↔ l.whole.length ≤ maxIntegerDigits := by
      have hdigits : 0 < maxIntegerDigits := by decide
      rw [← hl.value_whole_lt_iff hdigits, ← l.natAbs_toInt, hjson, Json.loadable_iff,
        ← integerLimit_eq]
      simp [Json.parts]
    split
    · next hlength => exact .ok (by rw [Located.plain, hjson]) (hshort.mpr hlength)
    · next hlength => exact .inr ⟨mt hshort.mp hlength, _, rfl, .inr rfl⟩
  · next hinteger =>
    have hjson := NumberLiteral.json_of_not_isInteger hinteger
    refine .ok (by rw [Located.plain, hjson]) ?_
    rw [hjson, Json.loadable_iff]
    simp [Json.parts]

lemma settles_resolveItems {items : List Tree} (hitems : ∀ t ∈ items, t.Resolves)
    (before : List Located) :
    Settles (resolveItems before items)
      (fun vs => vs.map Located.plain = before.reverse.map Located.plain ++ items.map json)
      (∀ t ∈ items, t.json.Loadable) := by
  -- on the items, for any before them: what is resolved is kept in reverse
  induction items generalizing before with
  | nil => exact .ok (by simp) nofun
  | cons t items ih =>
    obtain ⟨ht, hitems⟩ := List.forall_mem_cons.mp hitems
    rw [resolveItems]
    have htail := ht.bind fun v hv => (ih hitems (v :: before)).mono
      (R := fun vs => vs.map Located.plain = before.reverse.map Located.plain ++
        (t :: items).map json) fun vs hvs => by simp [hvs, hv]
    exact htail.congr (by rw [List.forall_mem_cons])

/-- The name and the value of a member. -/
def plainMember (m : Key × Located) : Text × Json := (m.1.2, m.2.plain)

lemma settles_resolveMembers {members : List (Key × Tree)} (hmembers : ∀ m ∈ members, m.2.Resolves)
    (before : List (Key × Located)) :
    Settles (resolveMembers before members)
      (fun ms => ms.map plainMember =
        before.reverse.map plainMember ++ members.map fun m => (m.1.2, m.2.json))
      (∀ m ∈ members, m.2.json.Loadable) := by
  induction members generalizing before with
  | nil => exact .ok (by simp) nofun
  | cons m members ih =>
    obtain ⟨k, t⟩ := m
    obtain ⟨ht, hmembers⟩ := List.forall_mem_cons.mp hmembers
    rw [resolveMembers]
    have htail := ht.bind fun v hv => (ih hmembers ((k, v) :: before)).mono
      (R := fun ms => ms.map plainMember = before.reverse.map plainMember ++
        ((k, t) :: members).map fun m => (m.1.2, m.2.json))
      fun ms hms => by simp [hms, plainMember, hv]
    exact htail.congr (by rw [List.forall_mem_cons])

lemma settles_distinctMembers (members : List (Key × Located)) (before : List (Text × Located)) :
    Settles (Located.distinctMembers before members)
      (fun ms => ms.map (fun m => (m.1, m.2.plain)) =
        before.reverse.map (fun m => (m.1, m.2.plain)) ++ members.map plainMember)
      ((members.map fun m => m.1.2).Nodup ∧ ∀ m ∈ members, m.1.2 ∉ before.map Prod.fst) := by
  induction members generalizing before with
  | nil => exact .ok (by simp) ⟨List.nodup_nil, nofun⟩
  | cons m members ih =>
    obtain ⟨⟨s, k⟩, v⟩ := m
    rw [Located.distinctMembers]
    -- a name is looked for among those before it, hence both conditions on the right
    have hany : (before.any fun m => m.1 == k) = true ↔ k ∈ before.map Prod.fst := by
      simp
    split
    · next hk => exact .inr ⟨fun h => h.2 _ List.mem_cons_self (hany.mp hk), _, rfl, .inl rfl⟩
    · next hk =>
      rw [hany] at hk
      refine ((ih ((k, v) :: before)).mono fun ms hms => ?_).congr ?_
      · rw [hms]
        simp [plainMember]
      · simp only [List.map_cons, List.nodup_cons, List.mem_cons, not_or,
          List.mem_map, not_exists, not_and]
        grind

lemma mem_separated {ts : List Token} {items : List (List Token)} {tok : Token} (h : ts ∈ items)
    (htok : tok ∈ ts) : tok ∈ separated items := by
  induction items with
  | nil => cases h
  | cons us items ih =>
    cases items with
    | nil =>
      rw [separated_singleton]
      rwa [List.mem_singleton.mp h] at htok
    | cons vs items =>
      rw [separated_cons_cons]
      rcases List.mem_cons.mp h with rfl | h
      · exact List.mem_append_left _ htok
      · exact List.mem_append_right _ (List.mem_cons_of_mem _ (ih h))

/-- The tokens of an item are tokens of the array. -/
lemma mem_tokens_array {s : Position} {items : List Tree} {t : Tree} {tok : Token} (h : t ∈ items)
    (htok : tok ∈ t.tokens) : tok ∈ (array s items).tokens := by
  rw [tokens]
  exact List.mem_cons_of_mem _
    (List.mem_append_left _ (mem_separated (List.mem_map_of_mem h) htok))

/-- The tokens of the value of a member are tokens of the object. -/
lemma mem_tokens_object {s : Position} {members : List (Key × Tree)} {m : Key × Tree} {tok : Token}
    (h : m ∈ members) (htok : tok ∈ m.2.tokens) : tok ∈ (object s members).tokens := by
  rw [tokens_object]
  refine List.mem_cons_of_mem _ (List.mem_append_left _
    (mem_separated (List.mem_map_of_mem h) ?_))
  exact List.mem_cons_of_mem _ (List.mem_cons_of_mem _ htok)

/-- Every tree whose numbers are well-formed is resolved. -/
lemma resolves (t : Tree) : (∀ l, .number l ∈ t.tokens → l.WellFormed) → t.Resolves := by
  induction t using Tree.inductionOn with
  | null s | bool s b | string s t =>
    intro _
    rw [Resolves, resolve, json]
    refine .ok (by rw [Located.plain]) ?_
    rw [Json.loadable_iff]
    simp [Json.parts]
  | number s l =>
    intro h
    rw [Resolves, resolve, json]
    exact settles_resolveNumber s (h l (by rw [tokens]; exact List.mem_singleton_self _))
  | array s items ih =>
    intro h
    have hitems : ∀ t ∈ items, t.Resolves :=
      fun t ht => ih t ht fun l hl => h l (mem_tokens_array ht hl)
    rw [Resolves, resolve, json]
    refine ((settles_resolveItems hitems []).bind fun vs hvs =>
      Settles.ok (a := Located.array s vs) ?_ trivial).congr ?_
    · rw [Located.plain, hvs]
      simp
    · rw [Json.loadable_iff]
      simp [Json.parts]
  | object s members ih =>
    intro h
    have hmembers : ∀ m ∈ members, m.2.Resolves :=
      fun m hm => ih m hm fun l hl => h l (mem_tokens_object hm hl)
    rw [Resolves, resolve, json]
    -- resolving values leaves the names as they are
    have hkeys (ms : List (Key × Located)) (hms : ms.map plainMember =
        members.map fun m => (m.1.2, m.2.json)) :
        ms.map (fun m => m.1.2) = members.map fun m => m.1.2 := by
      have := congrArg (List.map Prod.fst) hms
      simpa [plainMember, Function.comp_def] using this
    -- first the values are resolved, then the names compared
    refine ((settles_resolveMembers hmembers []).bind fun ms hms =>
      ((settles_distinctMembers ms []).congr (R := (members.map fun m => m.1.2).Nodup) ?_).bind
        fun vs hvs => Settles.ok (a := Located.object s vs) ?_ trivial).congr ?_
    · rw [hkeys ms (by simpa using hms)]
      simp
    · rw [Located.plain, hvs]
      simpa using hms
    · have hparts : (Json.object (members.map fun m => (m.1.2, m.2.json))).parts =
          members.map fun m => m.2.json := by
        simp [Json.parts]
      rw [Json.loadable_iff, hparts, List.forall_mem_map]
      simp [Function.comp_def, and_comm]

end Tree

end Clausal
