import Clausal.Text.Position

/-!
# JSON values

Values as they are loaded, with the members of objects in order and fractions kept apart from
integers, and the same values with the positions at which they start in a text.
-/

namespace Clausal

/-- A JSON value. Fractions are held as the bits of a double. -/
inductive Json where
  | null
  | bool (b : Bool)
  | int (n : Int)
  | float (bits : UInt64)
  | string (t : Text)
  | array (items : List Json)
  | object (members : List (Text × Json))

namespace Json

instance : Inhabited Json := ⟨null⟩

/-- The name of a value's type. -/
def typeName : Json → String
  | null => "null"
  | bool _ => "boolean"
  | int _ | float _ => "number"
  | string _ => "string"
  | array _ => "array"
  | object _ => "object"

/-- The values directly inside a value. -/
def parts : Json → List Json
  | array items => items
  | object members => members.map Prod.snd
  | _ => []

/-- The sizes of several values taken together. -/
noncomputable def totalSize : List Json → Nat
  | [] => 0
  | j :: js => sizeOf j + totalSize js

theorem totalSize_append (js ks : List Json) :
    totalSize (js ++ ks) = totalSize js + totalSize ks := by
  induction js with
  | nil => simp only [List.nil_append, totalSize, Nat.zero_add]
  | cons j js ih => simp only [List.cons_append, totalSize, ih, Nat.add_assoc]

theorem totalSize_parts_lt (j : Json) : totalSize j.parts < sizeOf j := by
  cases j with
  | array items =>
    have h : ∀ l : List Json, totalSize l ≤ sizeOf l := by
      intro l
      induction l with
      | nil => exact Nat.zero_le _
      | cons a l ih =>
        simp only [totalSize, List.cons.sizeOf_spec]
        omega
    have := h items
    simp only [parts, array.sizeOf_spec]
    omega
  | object members =>
    have h : ∀ l : List (Text × Json), totalSize (l.map Prod.snd) ≤ sizeOf l := by
      intro l
      induction l with
      | nil => exact Nat.zero_le _
      | cons a l ih =>
        obtain ⟨k, v⟩ := a
        simp only [List.map_cons, totalSize, List.cons.sizeOf_spec, Prod.mk.sizeOf_spec]
        omega
    have := h members
    simp only [parts, object.sizeOf_spec]
    omega
  | null | bool | int | float | string =>
    simp only [parts, totalSize, null.sizeOf_spec, bool.sizeOf_spec, int.sizeOf_spec,
      float.sizeOf_spec, string.sizeOf_spec]
    omega

/-- The greatest level among values still to be visited, each given with its own level, and what
was found before. -/
def deepest (found : Nat) : List (Json × Nat) → Nat
  | [] => found
  | (j, level) :: rest =>
    deepest (max found level) (j.parts.map (fun part => (part, level + 1)) ++ rest)
termination_by pending => totalSize (pending.map Prod.fst)
decreasing_by
  have := totalSize_parts_lt j
  have h : Prod.fst ∘ (fun part : Json => (part, level + 1)) = id := rfl
  simp only [List.map_append, List.map_map, h, List.map_id, totalSize_append, List.map_cons,
    totalSize]
  omega

/-- The levels of nesting of a value: one for a scalar or an empty container. -/
def depth (j : Json) : Nat := deepest 0 [(j, 1)]

end Json

/-- A JSON value with the position at which it starts and those of its parts. -/
inductive Located where
  | null (start : Position)
  | bool (start : Position) (b : Bool)
  | int (start : Position) (n : Int)
  | float (start : Position) (bits : UInt64)
  | string (start : Position) (t : Text)
  | array (start : Position) (items : List Located)
  | object (start : Position) (members : List (Text × Located))

namespace Located

instance : Inhabited Located := ⟨null .start⟩

/-- The position at which a value starts. -/
def start : Located → Position
  | null s | bool s _ | int s _ | float s _ | string s _ | array s _ | object s _ => s

/-- The value without positions. -/
def plain : Located → Json
  | null _ => .null
  | bool _ b => .bool b
  | int _ n => .int n
  | float _ bits => .float bits
  | string _ t => .string t
  | array _ items => .array (items.map plain)
  | object _ members => .object (members.map fun m => (m.1, plain m.2))
termination_by l => sizeOf l
decreasing_by
  · have := List.sizeOf_lt_of_mem ‹_ ∈ items›
    simp only [array.sizeOf_spec]
    omega
  · rename_i h
    have := List.sizeOf_lt_of_mem h
    obtain ⟨k, v⟩ := m
    simp only [object.sizeOf_spec, Prod.mk.sizeOf_spec] at this ⊢
    omega

end Located

end Clausal
