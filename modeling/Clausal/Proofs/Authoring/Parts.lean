import Clausal.Authoring.Document
import Clausal.Proofs.Json.Value
import Clausal.Proofs.Outcome

/-!
# Parts of documents

A path leads through a document to a part of it, and so to a position, if the document was read from
a text. Where a path leads out of the document, the position is that of the last part on the way.
-/

namespace Clausal

lemma lookup_map_snd {α β γ : Type} [BEq α] (f : β → γ) (k : α) (as : List (α × β)) :
    (as.map fun a => (a.1, f a.2)).lookup k = (as.lookup k).map f := by
  induction as with
  | nil => rfl
  | cons a as ih =>
    rw [List.map_cons, List.lookup_cons, List.lookup_cons, ih]
    cases k == a.1 <;> rfl

namespace Located

/-- The position of the part that a path leads to. Where the path leads out of the value, that of
the last part on the way. -/
def seek : Located → Path → Position
  | object s members, .field k :: rest =>
    match members.lookup k with
    | some v => v.seek rest
    | none => s
  | array s items, .item i :: rest =>
    match items[i]? with
    | some v => v.seek rest
    | none => s
  | l, _ => l.start

/-- The part of a value that a step leads to. -/
def part? : Located → Step → Option Located
  | object _ ms, .field k => ms.lookup k
  | array _ ls, .item i => ls[i]?
  | _, _ => none

/-- The part of a value that a path leads to. -/
def follow? (l : Located) (p : Path) : Option Located := p.foldlM part? l

variable {l v : Located} {p : Path} {s : Step}

lemma follow?_concat (h : l.follow? p = some v) (s : Step) : l.follow? (p ++ [s]) = v.part? s := by
  rw [follow?, List.foldlM_append, show p.foldlM part? l = some v from h]
  cases hs : v.part? s <;> simp [hs]

lemma seek_cons (h : l.part? s = some v) : l.seek (s :: p) = v.seek p := by
  cases l with
  | object start ms =>
    cases s with
    | field k => rw [seek, show ms.lookup k = some v from h]
    | item i => cases h
  | array start ls =>
    cases s with
    | field k => cases h
    | item i => rw [seek, show ls[i]? = some v from h]
  | _ => cases s <;> cases h

/-- Behind the part that a path leads to the search goes on from there. -/
lemma seek_append {q : Path} (h : l.follow? p = some v) : l.seek (p ++ q) = v.seek q := by
  induction p generalizing l with
  | nil =>
    cases h
    rfl
  | cons s p ih =>
    rw [follow?, List.foldlM_cons] at h
    obtain ⟨m, hm, hrest⟩ := Option.bind_eq_some_iff.mp h
    rw [List.cons_append, seek_cons hm]
    exact ih hrest

lemma seek_of_follow? (h : l.follow? p = some v) : l.seek p = v.start := by
  have hseek := seek_append (q := []) h
  rw [List.append_nil] at hseek
  rw [hseek]
  cases v <;> rfl

end Located

namespace Document

/-! ### Parts -/

/-- The part of a document that a step leads to. -/
def part? (d : Document) : Step → Option Document
  | .field k => d.members?.bind fun ms => ms.lookup k
  | .item i => d.items?.bind fun ds => ds[i]?

/-- The part of a document that a path leads to. -/
def follow? (d : Document) (p : Path) : Option Document := p.foldlM part? d

variable {d v : Document} {l : Located} {p : Path} {s : Step} {ms : List (Text × Document)}
  {ds : List Document} {k : Text}

lemma follow?_concat (h : d.follow? p = some v) (s : Step) : d.follow? (p ++ [s]) = v.part? s := by
  rw [follow?, List.foldlM_append, show p.foldlM part? d = some v from h]
  cases hs : v.part? s <;> simp [hs]

lemma part?_field (h : d.members? = some ms) : d.part? (.field k) = ms.lookup k := by
  rw [part?, h, Option.bind_some]

lemma part?_item {i : Nat} (h : d.items? = some ds) : d.part? (.item i) = ds[i]? := by
  rw [part?, h, Option.bind_some]

lemma value_of_text? {t : Text} (h : d.text? = some t) : d.value = .string t := by
  cases d with
  | loaded j =>
    cases j with
    | string t => exact congrArg Json.string (Option.some.inj h)
    | _ => cases h
  | located l =>
    cases l with
    | string start t =>
      obtain rfl := Option.some.inj h
      simp [value, Located.plain]
    | _ => cases h

lemma value_of_members? (h : d.members? = some ms) :
    d.value = .object (ms.map fun m => (m.1, m.2.value)) := by
  cases d with
  | loaded j =>
    cases j with
    | object js =>
      obtain rfl := Option.some.inj h
      simp [value, Function.comp_def]
    | _ => cases h
  | located l =>
    cases l with
    | object start ls =>
      obtain rfl := Option.some.inj h
      simp [value, Located.plain, Function.comp_def]
    | _ => cases h

lemma value_of_items? (h : d.items? = some ds) : d.value = .array (ds.map value) := by
  cases d with
  | loaded j =>
    cases j with
    | array js =>
      obtain rfl := Option.some.inj h
      simp [value, Function.comp_def]
    | _ => cases h
  | located l =>
    cases l with
    | array start ls =>
      obtain rfl := Option.some.inj h
      simp [value, Located.plain, Function.comp_def]
    | _ => cases h

lemma isNull_iff : d.isNull = true ↔ d.value = .null := by
  cases d with
  | loaded j => cases j <;> simp [isNull, value]
  | located l => cases l <;> simp [isNull, value, Located.plain]

lemma value_ne_string (h : d.text? = none) (t : Text) : d.value ≠ .string t := by
  cases d with
  | loaded j => cases j <;> simp_all [text?, value]
  | located l => cases l <;> simp_all [text?, value, Located.plain]

lemma value_ne_object (h : d.members? = none) (js : List (Text × Json)) :
    d.value ≠ .object js := by
  cases d with
  | loaded j => cases j <;> simp_all [members?, value]
  | located l => cases l <;> simp_all [members?, value, Located.plain]

lemma value_ne_array (h : d.items? = none) (js : List Json) : d.value ≠ .array js := by
  cases d with
  | loaded j => cases j <;> simp_all [items?, value]
  | located l => cases l <;> simp_all [items?, value, Located.plain]

/-! ### Documents read from a text -/

lemma part?_located : (located l).part? s = (l.part? s).map located := by
  cases l with
  | object start ms =>
    cases s with
    | field k => exact lookup_map_snd located k ms
    | item i => rfl
  | array start ls =>
    cases s with
    | field k => rfl
    | item i => exact List.getElem?_map
  | _ => cases s <;> rfl

lemma follow?_located : (located l).follow? p = (l.follow? p).map located := by
  induction p generalizing l with
  | nil => rfl
  | cons s p ih =>
    rw [follow?, List.foldlM_cons, part?_located, Located.follow?, List.foldlM_cons]
    cases l.part? s with
    | none => rfl
    | some m => exact ih

/-- All parts of a document that was read from a text have positions, and no others have. -/
lemma isSome_start?_of_part? (h : d.part? s = some v) : v.start?.isSome = d.start?.isSome := by
  cases d with
  | located l =>
    rw [part?_located, Option.map_eq_some_iff] at h
    obtain ⟨m, -, rfl⟩ := h
    rfl
  -- loaded values have no positions at all, neither the whole nor a part
  | loaded j =>
    cases s with
    | field k =>
      cases j with
      | object js =>
        rw [part?_field rfl, lookup_map_snd, Option.map_eq_some_iff] at h
        obtain ⟨m, -, rfl⟩ := h
        rfl
      | _ => cases h
    | item i =>
      cases j with
      | array js =>
        rw [part?_item rfl, List.getElem?_map, Option.map_eq_some_iff] at h
        obtain ⟨m, -, rfl⟩ := h
        rfl
      | _ => cases h

lemma isSome_start?_of_mem_members {m : Text × Document} (h : d.members? = some ms) (hm : m ∈ ms) :
    m.2.start?.isSome = d.start?.isSome := by
  cases d with
  | located l =>
    cases l with
    | object start ls =>
      obtain rfl := Option.some.inj h
      obtain ⟨m, -, rfl⟩ := List.mem_map.mp hm
      rfl
    | _ => cases h
  | loaded j =>
    cases j with
    | object js =>
      obtain rfl := Option.some.inj h
      obtain ⟨m, -, rfl⟩ := List.mem_map.mp hm
      rfl
    | _ => cases h

lemma isSome_start?_of_follow? (h : d.follow? p = some v) :
    v.start?.isSome = d.start?.isSome := by
  induction p generalizing d with
  | nil =>
    obtain rfl := Option.some.inj h
    rfl
  | cons s p ih =>
    rw [follow?, List.foldlM_cons] at h
    obtain ⟨m, hm, hrest⟩ := Option.bind_eq_some_iff.mp h
    exact (ih hrest).trans (isSome_start?_of_part? hm)

lemma value_mem_parts (h : d.part? s = some v) : v.value ∈ d.value.parts := by
  cases s with
  | field k =>
    obtain ⟨ms, hms, hk⟩ := Option.bind_eq_some_iff.mp h
    obtain ⟨before, after, rfl, -⟩ := List.lookup_eq_some_iff.mp hk
    simp [value_of_members? hms, Json.parts]
  | item i =>
    obtain ⟨ds, hds, hi⟩ := Option.bind_eq_some_iff.mp h
    rw [value_of_items? hds]
    exact List.mem_map_of_mem (List.mem_of_getElem? hi)

lemma value_within (h : d.follow? p = some v) : v.value.Within d.value := by
  induction p generalizing d with
  | nil =>
    obtain rfl := Option.some.inj h
    exact .refl
  | cons s p ih =>
    rw [follow?, List.foldlM_cons] at h
    obtain ⟨m, hm, hrest⟩ := Option.bind_eq_some_iff.mp h
    exact .head (value_mem_parts hm) (ih hrest)

/-- No object in the document repeats a name. Texts with such objects are refused, and loaded
values have no positions that could be mistaken. -/
def Distinct (d : Document) : Prop := d.start?.isSome → d.value.Distinct

lemma Distinct.nodup (hd : d.Distinct) (hstart : d.start?.isSome) (hv : d.follow? p = some v)
    (hms : v.members? = some ms) : (ms.map Prod.fst).Nodup := by
  have hwithin := value_within hv
  rw [value_of_members? hms] at hwithin
  simpa [Function.comp_def] using hd hstart _ hwithin

/-! ### Positions and faults -/

/-- The position of the part of a document that a path leads to, if there are positions. -/
def position? : Document → Path → Option Position
  | loaded _, _ => none
  | located l, p => some (l.seek p)

/-- Gives a fault the position of the part that its path leads to. -/
def placeFailure (d : Document) : Failure → Failure
  | .fault f => .fault { f with position := f.position.orElse fun _ => d.position? f.path }
  | .misuse m => .misuse m

/-- Gives faults their positions. -/
def place {α : Type} (d : Document) (x : Outcome α) : Outcome α := x.mapError d.placeFailure

/-- Where a path leads to a part, the position is that of the part. -/
lemma position?_of_follow? (h : d.follow? p = some v) : d.position? p = v.start? := by
  cases d with
  | loaded j =>
    have hnone := isSome_start?_of_follow? h
    rw [position?, eq_comm, ← Option.isNone_iff_eq_none]
    simpa [start?] using hnone
  | located l =>
    rw [follow?_located, Option.map_eq_some_iff] at h
    obtain ⟨m, hm, rfl⟩ := h
    exact congrArg some (Located.seek_of_follow? hm)

/-- The position of a field that is missing is that of the object without it. -/
lemma position?_of_missing (h : d.follow? p = some v) (hms : v.members? = some ms)
    (hk : ms.lookup k = none) : d.position? (p ++ [.field k]) = v.start? := by
  -- in a loaded value both sides are missing
  cases d with
  | loaded j =>
    have hnone := isSome_start?_of_follow? h
    rw [position?, eq_comm, ← Option.isNone_iff_eq_none]
    simpa [start?] using hnone
  | located l =>
    rw [follow?_located, Option.map_eq_some_iff] at h
    obtain ⟨m, hm, rfl⟩ := h
    cases m with
    | object start ls =>
      obtain rfl := Option.some.inj hms
      rw [lookup_map_snd, Option.map_eq_none_iff] at hk
      rw [position?, Located.seek_append hm, Located.seek, hk]
      rfl
    | _ => cases hms

variable {α : Type}

/-- A loaded value has no positions to give. -/
@[simp] lemma place_loaded (j : Json) (x : Outcome α) : (loaded j).place x = x := by
  cases x with
  | ok a => rfl
  | error e =>
    cases e with
    | misuse m => rfl
    | fault f =>
      obtain ⟨cause, path, position⟩ := f
      cases position <;> rfl

lemma place_bind {β : Type} (d : Document) (x : Outcome α) (f : α → Outcome β) :
    d.place (x >>= f) = d.place x >>= fun a => d.place (f a) := by
  cases x <;> rfl

@[simp] lemma place_eq_ok {d : Document} {x : Outcome α} {a : α} :
    d.place x = .ok a ↔ x = .ok a := by
  cases x with
  | ok b => exact Iff.rfl
  | error e =>
    change Except.error (d.placeFailure e) = _ ↔ _
    simp

/-- Only faults are given positions. -/
lemma place_eq_misuse {d : Document} {x : Outcome α} {m : Misuse} :
    d.place x = .error (.misuse m) ↔ x = .error (.misuse m) := by
  cases x with
  | ok a => exact iff_of_false nofun nofun
  | error e =>
    cases e with
    | fault f => exact iff_of_false nofun nofun
    | misuse k => exact Iff.rfl

end Document

end Clausal
