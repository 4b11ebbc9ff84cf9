import Clausal.Proofs.Authoring.Reading
import Clausal.Authoring.Writing
import Clausal.Proofs.Outcome
import Clausal.Proofs.Symbol
import Clausal.Proofs.Text.Utf8

/-!
# Taking objects apart

When the operations on members succeed and with which value: names and symbols are read exactly from
the strings that they are written as, and a field is read exactly if it is there and its value can
be read.
-/

namespace Clausal

/-! ### Texts of strings and names -/

lemma Text.ofChars_injective : Function.Injective Text.ofChars :=
  List.map_injective_iff.mpr fun _ _ h => CodePoint.scalar.inj h

@[simp] lemma Text.ofChars_inj {cs ds : List Char} : Text.ofChars cs = Text.ofChars ds ↔ cs = ds :=
  Text.ofChars_injective.eq_iff

@[simp] lemma Text.ofString_inj {s t : String} : Text.ofString s = Text.ofString t ↔ s = t := by
  rw [Text.ofString, Text.ofString, Text.ofChars_inj, String.toList_inj]

lemma Text.toChars?_eq_some_iff {t : Text} {cs : List Char} :
    t.toChars? = some cs ↔ t = Text.ofChars cs := by
  constructor
  · intro h
    induction t generalizing cs with
    | nil =>
      cases h
      rfl
    | cons c t ih =>
      simp only [toChars?, List.mapM_cons, bind, Option.bind_eq_some_iff, pure,
        Option.some.injEq] at h ih
      obtain ⟨d, hd, ds, hds, rfl⟩ := h
      cases c with
      | surrogate o => cases hd
      | scalar c =>
        cases hd
        rw [ih hds]
        rfl
  · rintro rfl
    exact Text.toChars?_ofChars cs

lemma nameJson_eq_ok {bs : Bytes} {j : Json} :
    nameJson bs = .ok j ↔ ∃ cs, bs = Utf8.encode cs ∧ j = .string (Text.ofChars cs) := by
  unfold nameJson
  cases h : Utf8.decode bs with
  | ok cs =>
    simp only [Except.ok.injEq]
    constructor
    · rintro rfl
      exact ⟨cs, Utf8.decode_eq_ok_iff.mp h, rfl⟩
    · rintro ⟨ds, hds, rfl⟩
      cases h.symm.trans (Utf8.decode_eq_ok_iff.mpr hds)
      rfl
  | error e =>
    simp only [Outcome.refuse_ne_ok, false_iff, not_exists, not_and]
    rintro cs hcs -
    cases h.symm.trans (Utf8.decode_eq_ok_iff.mpr hcs)

namespace Json

lemma asString_eq_ok {j : Json} {t : Text} : j.asString = .ok t ↔ j = .string t := by
  cases j <;> simp [asString, mismatch]

lemma textBytes_eq_ok {t : Text} {bs : Bytes} :
    textBytes t = .ok bs ↔ ∃ cs, t = Text.ofChars cs ∧ bs = Utf8.encode cs := by
  unfold textBytes Utf8.encodeText?
  cases h : t.toChars? with
  | none =>
    simp only [Option.map_none, Outcome.refuse_ne_ok, false_iff, not_exists, not_and]
    rintro cs hcs -
    cases h.symm.trans (Text.toChars?_eq_some_iff.mpr hcs)
  | some cs =>
    obtain rfl := Text.toChars?_eq_some_iff.mp h
    simp [eq_comm]

lemma asName_eq_ok_iff_textBytes {j : Json} {bs : Bytes} :
    j.asName = .ok bs ↔ ∃ t, j = .string t ∧ textBytes t = .ok bs := by
  simp [asName, asString_eq_ok]

/-- A name is read exactly from the string that it is written as. -/
lemma asName_eq_ok {j : Json} {bs : Bytes} : j.asName = .ok bs ↔ nameJson bs = .ok j := by
  rw [asName_eq_ok_iff_textBytes, nameJson_eq_ok]
  simp only [textBytes_eq_ok]
  constructor
  · rintro ⟨_, rfl, cs, rfl, rfl⟩
    exact ⟨cs, rfl, rfl⟩
  · rintro ⟨cs, rfl, rfl⟩
    exact ⟨_, rfl, cs, rfl, rfl⟩

lemma asInteger_eq_ok {j : Json} {n : Int} : j.asInteger = .ok n ↔ j = .int n := by
  cases j <;> simp [asInteger, mismatch]

lemma asBoolean_eq_ok {j : Json} {b : Bool} : j.asBoolean = .ok b ↔ j = .bool b := by
  cases j <;> simp [asBoolean, mismatch]

lemma asMembers_eq_ok {j : Json} {ms : Members} : j.asMembers = .ok ms ↔ j = .object ms := by
  cases j <;> simp [asMembers, mismatch]

lemma asItems_eq_ok {α : Type} {read : Json → Outcome α} {j : Json} {as : List α} :
    j.asItems read = .ok as ↔
      ∃ js, j = .array js ∧ List.Forall₂ (fun j a => read j = .ok a) js as := by
  cases j <;> simp [asItems, mismatch, Outcome.forItems_eq_ok]

end Json

/-! ### Symbols -/

/-- A vocabulary whose symbols are spelled differently. -/
class Vocabulary.Readable (α : Type) [Vocabulary α] : Prop where
  spelling_injective : Function.Injective (Vocabulary.spelling : α → String)

instance : Vocabulary.Readable NodeTag where
  spelling_injective s t h := by cases s <;> cases t <;> first | rfl | (revert h; decide)

instance : Vocabulary.Readable VarKind where
  spelling_injective s t h := by cases s <;> cases t <;> first | rfl | (revert h; decide)

instance : Vocabulary.Readable Connective where
  spelling_injective s t h := by cases s <;> cases t <;> first | rfl | (revert h; decide)

section Symbols

variable {α : Type} [Vocabulary α] [Vocabulary.Lawful α] [Vocabulary.Readable α]

lemma Vocabulary.ofSpelling?_eq_some_iff {t : Text} {s : α} :
    ofSpelling? t = some s ↔ t = Text.ofString (spelling s) := by
  unfold ofSpelling?
  constructor
  · intro h
    have := List.find?_some h
    exact (beq_iff_eq.mp this).symm
  · rintro rfl
    cases h : (all : List α).find? fun s' => Text.ofString (spelling s') ==
        Text.ofString (spelling s) with
    | none =>
      have := List.find?_eq_none.mp h s (Lawful.mem_all s)
      simp at this
    | some s' =>
      have := List.find?_some h
      rw [beq_iff_eq, Text.ofString_inj] at this
      rw [Readable.spelling_injective this]

lemma Json.spelledSymbol_eq_ok {t : Text} {s : α} :
    spelledSymbol t = .ok s ↔ t = Text.ofString (Vocabulary.spelling s) := by
  rw [← Vocabulary.ofSpelling?_eq_some_iff]
  unfold spelledSymbol
  cases (Vocabulary.ofSpelling? t : Option α) <;> simp

/-- A symbol is read exactly from the string that spells it. -/
lemma Json.asSymbol_eq_ok {j : Json} {s : α} :
    j.asSymbol = .ok s ↔ j = .string (Text.ofString (Vocabulary.spelling s)) := by
  simp only [asSymbol, Outcome.bind_eq_ok, asString_eq_ok, spelledSymbol_eq_ok]
  simp

end Symbols

/-! ### Fields -/

namespace Members

variable {α : Type} {ms : Members} {name : String}

@[simp] lemma get?_nil : get? [] name = none := rfl

@[simp] lemma get?_cons {k : String} {j : Json} :
    get? ((Text.ofString k, j) :: ms) name = if name = k then some j else get? ms name := by
  by_cases h : name = k
  · subst h
    simp [get?]
  · have : ¬Text.ofString name = Text.ofString k := by simpa using h
    simp [get?, List.lookup_cons, beq_eq_false_iff_ne.mpr this, h]

lemma required_eq_ok {read : Json → Outcome α} {a : α} :
    required ms name read = .ok a ↔ ∃ j, get? ms name = some j ∧ read j = .ok a := by
  unfold required
  rw [inField_eq_ok]
  cases get? ms name <;> simp

/-- A field counts as missing also if it is null. -/
lemma optional_eq_ok {default a : α} {read : Json → Outcome α} :
    optional ms name default read = .ok a ↔
      ((get? ms name = none ∨ get? ms name = some .null) ∧ a = default) ∨
        ∃ j, get? ms name = some j ∧ j ≠ .null ∧ read j = .ok a := by
  unfold optional
  split
  · next h => simp [h, eq_comm]
  · next h => simp [h, eq_comm]
  · next j hnull h =>
    rw [inField_eq_ok, h]
    simp [show j ≠ .null from fun hj => hnull hj]

lemma tag_eq_ok {accept : NodeTag → Bool} {cause : NodeTag → Cause} {t : NodeTag} :
    tag ms accept cause = .ok t ↔
      get? ms "type" = some (.string (Text.ofString t.name)) ∧ accept t = true := by
  unfold tag
  rw [required_eq_ok]
  simp only [Outcome.bind_eq_ok, Json.asSymbol_eq_ok]
  constructor
  · rintro ⟨_, hget, t', rfl, h⟩
    split at h
    · next haccept =>
      rw [Outcome.pure_eq_ok] at h
      subst h
      exact ⟨hget, haccept⟩
    · exact (Outcome.refuse_ne_ok h).elim
  · rintro ⟨hget, haccept⟩
    exact ⟨_, hget, t, rfl, by simp [haccept]⟩

lemma expectTag_eq_ok {expected : NodeTag} {cause : NodeTag → Cause} {u : Unit} :
    expectTag ms expected cause = .ok u ↔
      get? ms "type" = some (.string (Text.ofString expected.name)) := by
  simp only [expectTag, Outcome.bind_eq_ok, tag_eq_ok, beq_iff_eq, Outcome.pure_eq_ok]
  simp

/-- Members that are all among the fields are accepted by every configuration. -/
lemma checkFields_eq_ok {config : Config} {fields : List String} {u : Unit}
    (h : ∀ m ∈ ms, m.1 ∈ fields.map Text.ofString) : checkFields config fields ms = .ok u := by
  unfold checkFields
  split
  · have : (ms.find? fun m => !(fields.map Text.ofString).contains m.1) = none := by
      rw [List.find?_eq_none]
      intro m hm
      simpa using h m hm
    rw [this]
  · rfl

/-- A configuration that refuses unknown fields accepts members that are all among the fields. -/
lemma checkFields_eq_ok_iff {config : Config} {fields : List String} {u : Unit} :
    checkFields config fields ms = .ok u ↔
      (config.rejectUnknownFields = true → ∀ m ∈ ms, m.1 ∈ fields.map Text.ofString) := by
  constructor
  · intro h hreject m hm
    rw [checkFields, if_pos hreject] at h
    split at h
    · exact (Outcome.refuse_ne_ok h).elim
    · next hnone => simpa using List.find?_eq_none.mp hnone m hm
  · intro h
    cases hreject : config.rejectUnknownFields with
    | true => exact checkFields_eq_ok (h hreject)
    | false => simp [checkFields, hreject]

lemma ofJson_eq_ok {config : Config} {fields : List String} {j : Json} :
    Members.ofJson config fields j = .ok ms ↔
      j = .object ms ∧ checkFields config fields ms = .ok () := by
  simp only [Members.ofJson, Outcome.bind_eq_ok, Json.asMembers_eq_ok, Outcome.pure_eq_ok]
  constructor
  · rintro ⟨ms', rfl, _, hcheck, rfl⟩
    exact ⟨rfl, hcheck⟩
  · rintro ⟨rfl, hcheck⟩
    exact ⟨ms, rfl, (), hcheck, rfl⟩

end Members

end Clausal
