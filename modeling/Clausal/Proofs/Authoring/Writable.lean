import Clausal.Proofs.Authoring.Members

/-!
# Nodes with an authoring form

Names are the only parts of a node that the authoring form cannot always hold: a node has one
exactly if all its names are UTF-8.
-/

namespace Clausal

/-! ### Names -/

/-- The bytes are the encoding of some characters. -/
def Utf8.IsText (bs : Bytes) : Prop := ∃ cs, bs = Utf8.encode cs

/-- The names in an input. -/
def Input.names : Input → List Bytes
  | constant name => [name]
  | label text => [text]
  | normal _ => []
  | var placeholder _ => [placeholder]
  | self _ => []

/-- The names in a call. -/
def Call.names : Call → List Bytes
  | atomic source | compiled source => [source]
  | input _ | var => []

/-- The names in a proposition. -/
def Proposition.names (p : Proposition) : List Bytes := p.call.names ++ p.inputs.flatMap Input.names

/-- The names in an entry. -/
def Entry.names : Entry → List Bytes
  | proposition p => p.names
  | placeholder name => [name]

/-- The names in a contract. -/
def Contract.names (c : Contract) : List Bytes :=
  c.name :: c.origin :: (c.inputDefs ++ c.inputs.flatMap Entry.names)

/-- The names in a constant. -/
def Constant.names (c : Constant) : List Bytes := [c.name]

/-- The names in a predicate. -/
def Predicate.names (p : Predicate) : List Bytes :=
  p.name :: (p.inputDefs ++ p.contracts.flatMap Contract.names ++
    (p.constants.getD []).flatMap Constant.names ++ [p.entryPoint])

/-! ### Nodes that can be written -/

lemma fieldJson_eq_ok {name : String} {x : Outcome Json} {m : Text × Json} :
    fieldJson name x = .ok m ↔ ∃ j, x = .ok j ∧ m = (Text.ofString name, j) := by
  simp [fieldJson]

lemma itemsJson_eq_ok {α : Type} {f : α → Outcome Json} {as : List α} {j : Json} :
    itemsJson f as = .ok j ↔
      ∃ js, List.Forall₂ (fun a j => f a = .ok j) as js ∧ j = .array js := by
  simp [itemsJson, Outcome.forItems_eq_ok]

lemma exists_nameJson_iff {bs : Bytes} : (∃ j, nameJson bs = .ok j) ↔ Utf8.IsText bs := by
  simp only [nameJson_eq_ok, Utf8.IsText]
  grind

lemma exists_itemsJson_iff {α : Type} {f : α → Outcome Json} {names : α → List Bytes}
    (hf : ∀ a, (∃ j, f a = .ok j) ↔ ∀ n ∈ names a, Utf8.IsText n) {as : List α} :
    (∃ j, itemsJson f as = .ok j) ↔ ∀ n ∈ as.flatMap names, Utf8.IsText n := by
  have : (∃ j, itemsJson f as = .ok j) ↔ ∃ js, forItems f as = .ok js := by
    simp [itemsJson]
  rw [this, Outcome.exists_forItems_iff]
  simp only [hf, List.mem_flatMap]
  grind

lemma exists_namesJson_iff {names : List Bytes} :
    (∃ j, itemsJson nameJson names = .ok j) ↔ ∀ n ∈ names, Utf8.IsText n := by
  have hname (n : Bytes) : (∃ j, nameJson n = .ok j) ↔ ∀ n' ∈ [n], Utf8.IsText n' := by
    simp [exists_nameJson_iff]
  rw [exists_itemsJson_iff hname]
  simp

lemma Input.exists_toJson_iff (i : Input) :
    (∃ j, i.toJson = .ok j) ↔ ∀ n ∈ i.names, Utf8.IsText n := by
  cases i <;> simp [toJson, names, fieldJson, ← exists_nameJson_iff]

lemma Call.exists_toJson_iff (c : Call) :
    (∃ j, c.toJson = .ok j) ↔ ∀ n ∈ c.names, Utf8.IsText n := by
  cases c <;> simp [toJson, names, fieldJson, ← exists_nameJson_iff]

lemma Proposition.exists_toJson_iff (p : Proposition) :
    (∃ j, p.toJson = .ok j) ↔ ∀ n ∈ p.names, Utf8.IsText n := by
  rw [names, List.forall_mem_append, ← exists_itemsJson_iff Input.exists_toJson_iff,
    ← Call.exists_toJson_iff]
  simp [toJson, fieldJson]

lemma Entry.exists_toJson_iff (e : Entry) :
    (∃ j, e.toJson = .ok j) ↔ ∀ n ∈ e.names, Utf8.IsText n := by
  cases e with
  | proposition p => exact p.exists_toJson_iff
  | placeholder name => simp [toJson, names, exists_nameJson_iff]

lemma Contract.exists_toJson_iff (c : Contract) :
    (∃ j, c.toJson = .ok j) ↔ ∀ n ∈ c.names, Utf8.IsText n := by
  rw [names, List.forall_mem_cons, List.forall_mem_cons, List.forall_mem_append,
    ← exists_itemsJson_iff Entry.exists_toJson_iff, ← exists_namesJson_iff, ← exists_nameJson_iff,
    ← exists_nameJson_iff]
  simp [toJson, fieldJson]

lemma Constant.exists_toJson_iff (c : Constant) :
    (∃ j, c.toJson = .ok j) ↔ ∀ n ∈ c.names, Utf8.IsText n := by
  simp [toJson, names, fieldJson, ← exists_nameJson_iff]

lemma exists_constantsJson_iff {o : Option (List Constant)} :
    (∃ m, (o.mapM fun cs => fieldJson "constants" (itemsJson Constant.toJson cs)) = .ok m) ↔
      ∀ n ∈ (o.getD []).flatMap Constant.names, Utf8.IsText n := by
  cases o with
  | none => simp
  | some cs =>
    rw [Option.getD_some, ← exists_itemsJson_iff Constant.exists_toJson_iff]
    simp [fieldJson]

lemma Predicate.exists_toJson_iff (p : Predicate) :
    (∃ j, p.toJson = .ok j) ↔ ∀ n ∈ p.names, Utf8.IsText n := by
  rw [names, List.forall_mem_cons, List.forall_mem_append, List.forall_mem_append,
    List.forall_mem_append, ← exists_constantsJson_iff,
    ← exists_itemsJson_iff Contract.exists_toJson_iff,
    ← exists_namesJson_iff, ← exists_nameJson_iff, List.forall_mem_singleton,
    ← exists_nameJson_iff]
  simp [toJson, fieldJson, and_assoc]

end Clausal
