import Clausal.Proofs.Authoring.Explaining

/-!
# Positions of faults

A fault of a document that was read from a text has the position of the value that its path leads
to. A fault about a missing field has that of the object that should hold the field, and one about
an unknown member that of the member's value.
-/

namespace Clausal

/-! ### Ways through located values -/

namespace Located

variable {l : Located} {p : Path} {s : Step}

lemma part?_plain : l.plain.part? s = (l.part? s).map plain := by
  cases l with
  | object start ms =>
    cases s with
    | field k =>
      rw [plain]
      exact lookup_map_snd plain k ms
    | item i => rw [plain]; rfl
  | array start ls =>
    cases s with
    | field k => rw [plain]; rfl
    | item i =>
      rw [plain]
      exact List.getElem?_map
  | _ => rw [plain]; cases s <;> rfl

lemma follow?_plain : l.plain.follow? p = (l.follow? p).map plain := by
  induction p generalizing l with
  | nil => rfl
  | cons s p ih =>
    rw [Json.follow?, List.foldlM_cons, part?_plain, follow?, List.foldlM_cons]
    cases l.part? s with
    | none => rfl
    | some m => exact ih

end Located

/-! ### Faults of documents -/

/-- The fault has the position that its path leads to: that of a value, or that of the object that
lacks a field. -/
inductive Fault.PlacedIn (l : Located) : Fault → Prop
  | part {cause : Cause} {p : Path} {v : Located} (hv : l.follow? p = some v) (hp : p.IsPlain)
      (hkind : cause.kind ≠ .unknownField) : PlacedIn l ⟨cause, p, some v.start⟩
  | missing {name : String} {p : Path} {start : Position} {ms : List (Text × Located)}
      (hms : l.follow? p = some (.object start ms)) (hget : ms.lookup (Text.ofString name) = none)
      (hp : p.IsPlain) (hname : (Text.ofString name).IsPlain) :
      PlacedIn l ⟨.missingField name, p ++ [.field (Text.ofString name)], some start⟩
  | unknown {name : Text} {p : Path} {start : Position} {ms : List (Text × Located)} {v : Located}
      (hms : l.follow? p = some (.object start ms)) (hv : ms.lookup name = some v)
      (hp : p.IsPlain) : PlacedIn l ⟨.unknownField name, p ++ [.field name], some v.start⟩

namespace Located

variable {l : Located} {p : Path}

lemma exists_follow?_of_plain {j : Json} (h : l.plain.follow? p = some j) :
    ∃ v, l.follow? p = some v ∧ v.plain = j := by
  rwa [follow?_plain, Option.map_eq_some_iff] at h

lemma exists_object_of_plain {ms : Members} (h : l.plain.follow? p = some (.object ms)) :
    ∃ start ls, l.follow? p = some (.object start ls) ∧
      ms = ls.map fun m => (m.1, m.2.plain) := by
  obtain ⟨v, hv, hplain⟩ := exists_follow?_of_plain h
  cases v with
  | object start ls =>
    rw [plain] at hplain
    exact ⟨start, ls, hv, (Json.object.inj hplain).symm⟩
  | _ => simp [plain] at hplain

end Located

/-- What concerns the value of a text has its position there. -/
lemma Fault.placedIn_of_concerns {l : Located} {f : Fault} (h : f.Concerns l.plain) :
    PlacedIn l { f with position := some (l.seek f.path) } := by
  -- a part that is missing has the place of the object that lacks it
  cases h with
  | part hv hp hkind =>
    obtain ⟨v, hv, -⟩ := Located.exists_follow?_of_plain hv
    rw [Located.seek_of_follow? hv]
    exact .part hv hp hkind
  | @missing name p ms hms hget hp hname =>
    obtain ⟨start, ls, hls, rfl⟩ := Located.exists_object_of_plain hms
    rw [Members.get?, lookup_map_snd, Option.map_eq_none_iff] at hget
    have hseek : l.seek (p ++ [.field (Text.ofString name)]) = start := by
      rw [Located.seek_append hls, Located.seek, hget]
    rw [hseek]
    exact .missing hls hget hp hname
  | @unknown name p ms v hms hv hp =>
    obtain ⟨start, ls, hls, rfl⟩ := Located.exists_object_of_plain hms
    rw [lookup_map_snd, Option.map_eq_some_iff] at hv
    obtain ⟨v, hv, -⟩ := hv
    have hseek : l.seek (p ++ [.field name]) = v.start :=
      Located.seek_of_follow? ((Located.follow?_concat hls _).trans hv)
    rw [hseek]
    exact .unknown hls hv hp

/-- A failure with a place in the text, if it is a fault. -/
def Failure.PlacedIn (l : Located) : Failure → Prop
  | fault f => f.PlacedIn l
  | misuse _ => True

lemma Document.placedIn_place {α : Type} {l : Located} {x : Outcome α}
    (h : (located l).value.Explains x) : ((located l).place x).FailsOnly (Failure.PlacedIn l) := by
  cases x with
  | ok a => exact .ok a
  | error e =>
    intro e' he
    cases he
    have he := h e rfl
    cases e with
    | misuse m => trivial
    | fault f =>
      have hposition : f.position = none := by cases he <;> rfl
      have hplaced := Fault.placedIn_of_concerns he
      change Fault.PlacedIn l { f with position := f.position.orElse fun _ => some (l.seek f.path) }
      rwa [hposition]

/-! ### Denoting -/

namespace Role

variable {parser : Parser} {config : Config} {s : Source} {l : Located} {r : Role} {f : Fault}
  {j : Json}

/-- A fault of a document that was read from a text has the position of the part that its path leads
to, and for a field that is missing that of the object without it. A path to an unknown member ends
in the member's name, whatever it is. All other paths are plain: no other plain path is written like
them, so ignored members with names like paths cannot be meant. -/
theorem position_of_denote (hload : (s.load parser config).outcome = .ok (.located l))
    (hfault : (r.denote parser config s).outcome = .error (.fault f)) :
    ((∃ v, l.follow? f.path = some v ∧ f.position = some v.start) ∨
      ∃ name front start ms, f.cause = .missingField name ∧
        f.path = front ++ [.field (Text.ofString name)] ∧
        l.follow? front = some (.object start ms) ∧ ms.lookup (Text.ofString name) = none ∧
        f.position = some start) ∧
    (∀ name, f.cause = .unknownField name → ∃ front start ms v, front.IsPlain ∧
      f.path = front ++ [.field name] ∧ l.follow? front = some (.object start ms) ∧
      ms.lookup name = some v ∧ f.position = some v.start) ∧
    (f.cause.kind ≠ .unknownField → f.path.IsPlain ∧
      ∀ p : Path, p.IsPlain → p.render [] = f.path.render [] → p = f.path) := by
  rw [outcome_denote_of_load hload] at hfault
  have hplaced : f.PlacedIn l := Document.placedIn_place (r.explains_denoteJson _) _ hfault
  cases hplaced with
  | part hv hp hkind =>
    refine ⟨.inl ⟨_, hv, rfl⟩, ?_, fun _ => ⟨hp, fun q hq => Path.eq_of_render_eq hq hp⟩⟩
    rintro name rfl
    exact (hkind rfl).elim
  | @missing name p start ms hms hget hp hname =>
    have hplain : Path.IsPlain (p ++ [.field (Text.ofString name)]) :=
      List.forall_mem_append.mpr ⟨hp, List.forall_mem_singleton.mpr hname⟩
    exact ⟨.inr ⟨_, _, _, _, rfl, rfl, hms, hget, rfl⟩, nofun,
      fun _ => ⟨hplain, fun q hq => Path.eq_of_render_eq hq hplain⟩⟩
  | @unknown name p start ms v hms hv hp =>
    refine ⟨.inl ⟨v, (Located.follow?_concat hms _).trans hv, rfl⟩, ?_, fun h => (h rfl).elim⟩
    rintro _ ⟨rfl⟩
    exact ⟨p, start, ms, v, hp, rfl, hms, hv, rfl⟩

/-- A variable, and a member with the name of the empty path. -/
def strayName : Text :=
  "\x7b\"\":0,\n\"type\":\"VariableInput\",\"placeholder\":\"x\"\x7d"

set_option maxRecDepth 4000 in
theorem position_of_denote_strayName : ∃ l v f,
    ((Source.text strayName).load .standard {}).outcome = .ok (.located l) ∧
    ((input none (some [])).denote .standard {} (.text strayName)).outcome = .error (.fault f) ∧
    f.path = [.field "placeholder"] ∧ l.follow? f.path = some v ∧
    f.position = some v.start ∧ v.start = ⟨2, 38⟩ ∧
    ∀ p : Path, p.IsPlain → p.render [] = f.path.render [] → p = f.path := by
  have hload : ((Source.text strayName).load .standard {}).outcome.toOption.any
      (· matches .located _) := by
    decide +kernel
  have hfault : ((input none (some [])).denote .standard {} (.text strayName)).outcome =
      .error (.fault ⟨.unboundVariable [0x78], [.field "placeholder"], some ⟨2, 38⟩⟩) := by
    decide +kernel
  obtain ⟨l, hl⟩ : ∃ l, ((Source.text strayName).load .standard {}).outcome = .ok (.located l) := by
    revert hload
    cases ((Source.text strayName).load .standard {}).outcome with
    | error e => nofun
    | ok d =>
      cases d with
      | loaded j => nofun
      | located l => exact fun _ => ⟨l, rfl⟩
  obtain ⟨⟨v, hv, hposition⟩ | ⟨_, _, _, _, hcause, -⟩, -, hplain⟩ := position_of_denote hl hfault
  · exact ⟨l, v, _, hl, hfault, rfl, hv, hposition, (Option.some.inj hposition).symm,
      (hplain nofun).2⟩
  · cases hcause

end Role

end Clausal
