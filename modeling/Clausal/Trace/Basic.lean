import Clausal.Fault.Outcome

/-!
# Traces

The larger operations note what they have done. Notes are data, gathered beside the outcome: they
change nothing, and those made before a failure are kept.
-/

namespace Clausal

/-- A note of an operation that succeeded. -/
inductive Note where
  | parsed (length : Nat)
  | validated (name : Bytes) (contracts : Nat) (binders : List (Bytes × Bytes))
  | decoded (bytes : Nat) (name : Bytes)
  | denoted (name : Bytes) (contracts : Nat) (binders : List (Bytes × Bytes))

namespace Note

/-- The bound variables by the names of their contracts. -/
def showBinders (binders : List (Bytes × Bytes)) : List Char :=
  '\x7b' :: List.intercalate [',', ' ']
    (binders.map fun (c, v) => quoteBytes c ++ [':', ' '] ++ quoteBytes v) ++ ['\x7d']

/-- A note on one line. -/
def toText : Note → Text
  | parsed length =>
    Text.ofString ("DEBUG parse_document: " ++ toString length ++ " char(s) parsed")
  | validated name contracts binders =>
    Text.ofString "DEBUG validate_predicate: " ++ Text.ofChars (quoteBytes name) ++
      Text.ofString (" ok, " ++ toString contracts ++ " contract(s), bindings=") ++
      Text.ofChars (showBinders binders)
  | decoded bytes name =>
    Text.ofString ("DEBUG decode_predicate: " ++ toString bytes ++ " byte(s) -> ") ++
      Text.ofChars (quoteBytes name)
  | denoted name contracts binders =>
    Text.ofString "DEBUG translate_predicate: " ++ Text.ofChars (quoteBytes name) ++
      Text.ofString (" -> " ++ toString contracts ++ " contract(s), bindings=") ++
      Text.ofChars (showBinders binders)

end Note

/-- An outcome with the notes made on the way. -/
structure Traced (α : Type) where
  notes : List Note
  outcome : Outcome α

namespace Traced

variable {α β : Type}

/-- An outcome without notes. -/
def ofOutcome (x : Outcome α) : Traced α := ⟨[], x⟩

/-- Goes on with the value of an outcome, if there is one. -/
def bind (x : Traced α) (f : α → Traced β) : Traced β :=
  match x.outcome with
  | .ok a =>
    let y := f a
    ⟨x.notes ++ y.notes, y.outcome⟩
  | .error e => ⟨x.notes, .error e⟩

instance : Monad Traced where
  pure a := ⟨[], .ok a⟩
  bind := bind

instance : MonadLift Outcome Traced := ⟨ofOutcome⟩

instance : MonadExcept Failure Traced where
  throw e := ⟨[], .error e⟩
  tryCatch x handle :=
    match x.outcome with
    | .ok _ => x
    | .error e =>
      let y := handle e
      ⟨x.notes ++ y.notes, y.outcome⟩

/-- Makes a note. -/
def note (n : Note) : Traced Unit := ⟨[n], .ok ()⟩

@[simp]
theorem outcome_pure (a : α) : (pure a : Traced α).outcome = .ok a := rfl

@[simp]
theorem outcome_bind (x : Traced α) (f : α → Traced β) :
    (x >>= f).outcome = x.outcome >>= fun a => (f a).outcome := by
  change (bind x f).outcome = _
  unfold bind
  cases x.outcome <;> rfl

@[simp]
theorem outcome_ofOutcome (x : Outcome α) : (ofOutcome x).outcome = x := rfl

end Traced

end Clausal
