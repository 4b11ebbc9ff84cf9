import Clausal.Fault.Report
import Clausal.Proofs.Authoring.Blame
import Clausal.Proofs.Authoring.Fieldwise
import Clausal.Proofs.Json.Order

/-!
# Writing nodes

The authoring form of a node holds those of the nodes within it, each where the node stands, and
the texts of the node, each at its path. There is one unless a text is not UTF-8, and then the first
such text is refused.
-/

namespace Clausal

open TextField (whole)

/-! ### Writing looks at the texts in order -/

open Outcome (Inspects)

lemma nameJson_inspects (bs : Bytes) : (nameJson bs).Inspects TextField.inspection (whole bs) := by
  unfold nameJson
  cases h : Utf8.decode bs with
  | ok cs =>
    have hbs : Utf8.IsText bs := ⟨cs, Utf8.decode_eq_ok_iff.mp h⟩
    exact .of_inOrder (i := (⟨[], bs⟩ : TextField)) hbs _
  | error e =>
    have hbs : ¬Utf8.IsText bs := by
      rintro ⟨cs, hcs⟩
      cases h.symm.trans (Utf8.decode_eq_ok_iff.mpr hcs)
    exact .of_not_inOrder (i := (⟨[], bs⟩ : TextField)) hbs

lemma FieldValue.toJson_inspects {v : FieldValue}
    (h : ∀ y ∈ v.parts, y.toJson.Inspects TextField.inspection y.texts) :
    v.toJson.Inspects TextField.inspection v.textFields := by
  cases v with
  | text bs => exact nameJson_inspects bs
  | texts bss => exact (Inspects.forItems fun bs _ => nameJson_inspects bs).map _
  | node x => exact h x (List.mem_singleton.mpr rfl)
  | nodes xs => exact (Inspects.forItems h).map _
  | symbol | number | selectors | flag => exact .ok _

/-- A node is written if all its texts are UTF-8, and the first that is not is refused. -/
lemma Node.toJson_inspects (x : Node) : x.toJson.Inspects TextField.inspection x.texts := by
  -- on the node: its parts inspect their texts, and the fields are written in order
  induction x using inductionOn with
  | step x ih =>
    obtain ⟨bs, rfl⟩ | hx := x.placeholder_or_forall_ne
    · exact nameJson_inspects bs
    · rw [toJson_eq hx, texts_eq hx]
      refine (Inspects.mapM fun m hm => ?_).map _
      have hvalue : m.2.toJson.Inspects TextField.inspection m.2.textFields :=
        FieldValue.toJson_inspects fun y hy => ih y (mem_parts_of_mem hm hy)
      exact hvalue.inField.bind_ok _

/-! ### Written fields -/

namespace Node

variable {x : Node} {j : Json} {ms : Members}

/-- The members are the fields of the node, each with what it holds as it is written. -/
def WrittenAs (x : Node) (ms : Members) : Prop :=
  List.Forall₂ (fun m n => n.1 = Text.ofString m.1 ∧ m.2.toJson = .ok n.2) x.members ms

lemma exists_writtenAs (h : x.toJson = .ok j) (hx : ∀ bs, x ≠ .placeholder bs) :
    ∃ ms, j = .object ms ∧ x.WrittenAs ms := by
  rw [toJson_eq hx, Outcome.map_eq_ok] at h
  obtain ⟨ms, hms, rfl⟩ := h
  refine ⟨ms, rfl, (Outcome.mapM_eq_ok.mp hms).imp fun m n h => ?_⟩
  obtain ⟨v, hv, rfl⟩ := fieldJson_eq_ok.mp h
  exact ⟨rfl, hv⟩

namespace WrittenAs

variable {s : Step} {v : Json} {m : String × FieldValue}

lemma names_eq (h : x.WrittenAs ms) :
    ms.map Prod.fst = (x.members.map Prod.fst).map Text.ofString := by
  rw [← List.forall₂_eq_eq_eq, List.forall₂_map_left_iff, List.map_map,
    List.forall₂_map_right_iff]
  exact h.flip.imp fun _ _ h => h.1

lemma names_sublist (h : x.WrittenAs ms) :
    (ms.map Prod.fst).Sublist (x.fields.map Text.ofString) :=
  h.names_eq ▸ x.members_sublist.map Text.ofString

lemma nodup_names (h : x.WrittenAs ms) : (ms.map Prod.fst).Nodup :=
  h.names_sublist.nodup (x.nodup_fields.map fun _ _ => Text.ofString_inj.mp)

lemma exists_part? (h : x.WrittenAs ms) (hm : m ∈ x.members) :
    ∃ v, (Json.object ms).part? (.field (Text.ofString m.1)) = some v ∧
      m.2.toJson = .ok v := by
  obtain ⟨⟨k, v⟩, hmem, rfl, hv⟩ := Outcome.exists_mem_of_forall₂ h.flip hm
  exact ⟨v, (Json.lookup_eq_some_iff_mem h.nodup_names).mpr hmem, hv⟩

lemma exists_member (h : x.WrittenAs ms) (hs : (Json.object ms).part? s = some v) :
    ∃ m ∈ x.members, s = .field (Text.ofString m.1) ∧ m.2.toJson = .ok v := by
  cases s with
  | item i => cases hs
  | field k =>
    have hmem := (Json.lookup_eq_some_iff_mem h.nodup_names).mp hs
    obtain ⟨m, hm, rfl, hv⟩ := Outcome.exists_mem_of_forall₂ h hmem
    exact ⟨m, hm, rfl, hv⟩

end WrittenAs

end Node

/-! ### Nodes at their places -/

lemma FieldValue.exists_follow?_of_holds {v : FieldValue} {w : Json} {p : Path} {y : Node}
    (hw : v.toJson = .ok w) (h : v.Holds p y) :
    ∃ u, w.follow? p = some u ∧ y.toJson = .ok u := by
  cases h with
  | node => exact ⟨w, rfl, hw⟩
  | item hi =>
    obtain ⟨js, hjs, rfl⟩ := itemsJson_eq_ok.mp hw
    obtain ⟨u, hu, hy⟩ := Outcome.exists_getElem?_of_forall₂ hjs.flip hi
    exact ⟨u, Json.follow?_cons_of_part? hu, hy⟩

namespace Node

variable {x y : Node} {j : Json} {p : Path}

/-- What is written for a node that stands in another is found at its place. -/
lemma exists_follow?_of_inside (hj : x.toJson = .ok j) (h : x.Inside p y) :
    ∃ v, j.follow? p = some v ∧ y.toJson = .ok v := by
  -- on the path, for any value that the node is written as
  induction h generalizing j with
  | here => exact ⟨j, rfl, hj⟩
  | field hm hy _ ih =>
    obtain ⟨ms, rfl, hms⟩ := exists_writtenAs hj (ne_placeholder_of_mem hm)
    obtain ⟨w, hw, hmw⟩ := hms.exists_part? hm
    obtain ⟨u, hu, hyu⟩ := FieldValue.exists_follow?_of_holds hmw hy
    obtain ⟨v, hv, hz⟩ := ih hyu
    refine ⟨v, ?_, hz⟩
    rw [Json.follow?_cons_of_part? hw, Json.follow?_append hu, hv]

end Node

/-! ### Texts at their places -/

/-- The text is spelled at its path in the value. -/
def TextField.SpelledIn (t : TextField) (j : Json) : Prop :=
  ∃ s, j.follow? t.path = some (.string s) ∧ Utf8.encodeText? s = some t.bytes

lemma TextField.SpelledIn.under {t : TextField} {j v : Json} {p : Path} (ht : t.SpelledIn v)
    (h : j.follow? p = some v) : (t.under p).SpelledIn j := by
  obtain ⟨s, hs, hbytes⟩ := ht
  exact ⟨s, (Json.follow?_append h).trans hs, hbytes⟩

lemma spelledIn_of_nameJson {bs : Bytes} {j : Json} (h : nameJson bs = .ok j) :
    (⟨[], bs⟩ : TextField).SpelledIn j := by
  obtain ⟨cs, rfl, rfl⟩ := nameJson_eq_ok.mp h
  exact ⟨Text.ofChars cs, rfl, by rw [Utf8.encodeText?, Text.toChars?_ofChars]; rfl⟩

lemma FieldValue.spelledIn_of_mem {v : FieldValue} {w : Json} {t : TextField}
    (hw : v.toJson = .ok w) (ht : t ∈ v.ownTexts) : t.SpelledIn w := by
  cases v with
  | text bs =>
    obtain rfl := List.mem_singleton.mp ht
    exact spelledIn_of_nameJson hw
  | texts bss =>
    obtain ⟨i, bs, hi, u, hu, rfl⟩ := TextField.mem_ofItems.mp ht
    obtain rfl := List.mem_singleton.mp hu
    obtain ⟨js, hjs, rfl⟩ := itemsJson_eq_ok.mp hw
    obtain ⟨v, hv, hbs⟩ := Outcome.exists_getElem?_of_forall₂ hjs.flip hi
    exact (spelledIn_of_nameJson hbs).under (Json.follow?_cons_of_part? hv)
  | _ => cases ht

namespace Node

variable {x : Node} {j : Json} {t : TextField}

lemma spelledIn_of_mem_ownTexts (hj : x.toJson = .ok j) (ht : t ∈ x.ownTexts) : t.SpelledIn j := by
  obtain ⟨bs, rfl⟩ | hx := x.placeholder_or_forall_ne
  · obtain rfl := List.mem_singleton.mp ht
    exact spelledIn_of_nameJson hj
  · rw [ownTexts_eq hx, List.mem_flatMap] at ht
    obtain ⟨m, hm, ht⟩ := ht
    obtain ⟨u, hu, rfl⟩ := TextField.mem_ofField.mp ht
    obtain ⟨ms, rfl, hms⟩ := exists_writtenAs hj hx
    obtain ⟨w, hw, hmw⟩ := hms.exists_part? hm
    exact (FieldValue.spelledIn_of_mem hmw hu).under (Json.follow?_cons_of_part? hw)

lemma spelledIn_of_mem_texts (hj : x.toJson = .ok j) (ht : t ∈ x.texts) : t.SpelledIn j := by
  obtain ⟨p, y, hy, u, hu, rfl⟩ := mem_texts_iff.mp ht
  obtain ⟨v, hv, hyv⟩ := exists_follow?_of_inside hj hy
  exact (spelledIn_of_mem_ownTexts hyv hu).under hv

end Node

/-! ### Objects -/

/-- No path leads to an object. -/
def Json.ObjectFree (j : Json) : Prop := ∀ p ms, j.follow? p ≠ some (.object ms)

lemma Json.ObjectFree.of_parts {j : Json} (hj : ∀ ms, j ≠ .object ms)
    (h : ∀ k ∈ j.parts, k.ObjectFree) : j.ObjectFree := by
  intro p ms hp
  cases p with
  | nil => exact hj ms (Option.some.inj hp)
  | cons s p =>
    rw [follow?_cons, Option.bind_eq_some_iff] at hp
    obtain ⟨w, hw, hp⟩ := hp
    exact h w (mem_parts_of_part? hw) p ms hp

lemma objectFree_of_nameJson {bs : Bytes} {j : Json} (h : nameJson bs = .ok j) :
    j.ObjectFree := by
  obtain ⟨cs, -, rfl⟩ := nameJson_eq_ok.mp h
  exact .of_parts nofun nofun

/-- Objects in what is written for a field are those of the nodes that the field holds. -/
lemma FieldValue.holds_of_follow? {v : FieldValue} {w : Json} {p : Path} {ms : Members}
    (hw : v.toJson = .ok w) (h : w.follow? p = some (.object ms)) :
    ∃ q r y u, v.Holds q y ∧ y.toJson = .ok u ∧ u.follow? r = some (.object ms) ∧
      p = q ++ r := by
  -- values without nodes are written without objects, so no path through them ends in one
  have absurd (hfree : w.ObjectFree) : False := hfree p ms h
  cases v with
  | node x => exact ⟨[], p, x, w, .node x, hw, h, rfl⟩
  | nodes xs =>
    obtain ⟨js, hjs, rfl⟩ := itemsJson_eq_ok.mp hw
    cases p with
    | nil => cases h
    | cons s p =>
      rw [Json.follow?_cons, Option.bind_eq_some_iff] at h
      obtain ⟨u, hu, h⟩ := h
      cases s with
      | field k => cases hu
      | item i =>
        obtain ⟨y, hi, hy⟩ := Outcome.exists_getElem?_of_forall₂ hjs hu
        exact ⟨[.item i], p, y, u, .item hi, hy, h, rfl⟩
  | text bs => exact (absurd (objectFree_of_nameJson hw)).elim
  | texts bss =>
    obtain ⟨js, hjs, rfl⟩ := itemsJson_eq_ok.mp hw
    refine (absurd (.of_parts nofun fun k hk => ?_)).elim
    obtain ⟨bs, -, hbs⟩ := Outcome.exists_mem_of_forall₂ hjs hk
    exact objectFree_of_nameJson hbs
  | selectors cs =>
    cases hw
    refine (absurd (.of_parts nofun (List.forall_mem_map.mpr fun c _ => ?_))).elim
    exact .of_parts nofun nofun
  | symbol | number | flag =>
    cases hw
    exact (absurd (.of_parts nofun nofun)).elim

/-- Objects in what is written for a node are those of the nodes that stand in it. -/
lemma Node.inside_of_follow? {x : Node} {j : Json} {p : Path} {ms : Members}
    (hj : x.toJson = .ok j) (h : j.follow? p = some (.object ms)) :
    ∃ y, x.Inside p y ∧ y.toJson = .ok (.object ms) := by
  -- on the node, for any path: the first step is a field, which holds the part that the rest leads
  -- into
  induction x using inductionOn generalizing j p with
  | step x ih =>
    obtain ⟨bs, rfl⟩ | hx := x.placeholder_or_forall_ne
    · exact (objectFree_of_nameJson hj p ms h).elim
    · cases p with
      | nil =>
        obtain rfl := Option.some.inj h
        exact ⟨x, .here x, hj⟩
      | cons s p =>
        obtain ⟨ns, rfl, hns⟩ := exists_writtenAs hj hx
        rw [Json.follow?_cons, Option.bind_eq_some_iff] at h
        obtain ⟨w, hw, h⟩ := h
        obtain ⟨m, hm, rfl, hmw⟩ := hns.exists_member hw
        obtain ⟨q, r, y, u, hy, hu, hr, rfl⟩ := FieldValue.holds_of_follow? hmw h
        have hpart := mem_parts_of_mem hm (FieldValue.mem_parts_iff.mpr ⟨q, hy⟩)
        obtain ⟨z, hz, hms⟩ := ih y hpart hu hr
        exact ⟨z, .field hm hy hz, hms⟩

/-! ### Main result -/

/-- A node of any kind can be written exactly if the texts in the fields of all nodes within it are
UTF-8. Otherwise the first text that is not, in the order of fields and items, is refused at its
path. What is written spells all texts at their paths and has the nodes within at their places, and
the members of its objects are among the fields of the nodes there, in their order. -/
theorem Node.toJson_answers_or_refuses (x : Node) :
    ((∃ j, x.toJson = .ok j) ↔
      ∀ y : Node, y.Within x → ∀ t ∈ y.ownTexts, Utf8.IsText t.bytes) ∧
    (∀ e, x.toJson = .error e → ∃ t ∈ x.texts, ¬Utf8.IsText t.bytes ∧
      (∀ u ∈ x.texts, Utf8.IsText u.bytes ∨ u = t ∨ x.Precedes t.path u.path) ∧
      ∃ f, e = .fault f ∧ ∀ base, (Report.ofFault base f).kind = .typeMismatch ∧
        (Report.ofFault base f).path = t.path.render base) ∧
    ∀ j, x.toJson = .ok j →
      (∀ t ∈ x.texts, t.SpelledIn j) ∧
      (∀ p y, x.Inside p y → ∃ v, j.follow? p = some v ∧ y.toJson = .ok v) ∧
      ∀ p ms, j.follow? p = some (.object ms) →
        ∃ y, x.Inside p y ∧ (ms.map Prod.fst).Sublist (y.fields.map Text.ofString) := by
  have hinspects := x.toJson_inspects
  have horder := x.pairwise_texts
  refine ⟨hinspects.exists_ok_iff.trans (forall_mem_texts_iff (P := Utf8.IsText)),
    fun e he => ?_, fun j hj => ?_⟩
  -- the first text that is not well-formed; those after it stand after its path
  · obtain ⟨t, ⟨before, after, htexts, hbefore, ht⟩, rfl⟩ := hinspects.stops e he
    rw [htexts] at horder ⊢
    refine ⟨t, by simp, ht, fun u hu => ?_, _, rfl, fun base => ⟨rfl, rfl⟩⟩
    rcases List.mem_append.mp hu with hu | hu
    · exact .inl (hbefore u hu)
    · have hafter := (List.pairwise_cons.mp (List.pairwise_append.mp horder).2.1).1
      exact .inr ((List.mem_cons.mp hu).imp_right (hafter u))
  · refine ⟨fun t ht => spelledIn_of_mem_texts hj ht, fun p y h => exists_follow?_of_inside hj h,
      fun p ms hms => ?_⟩
    obtain ⟨y, hy, hobject⟩ := inside_of_follow? hj hms
    have hne (bs : Bytes) : y ≠ .placeholder bs := by
      rintro rfl
      exact objectFree_of_nameJson hobject [] ms rfl
    obtain ⟨ns, hns, hwritten⟩ := exists_writtenAs hobject hne
    cases hns
    exact ⟨y, hy, hwritten.names_sublist⟩

end Clausal
