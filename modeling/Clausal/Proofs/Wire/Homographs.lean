import Clausal.Proofs.Node.Arising

/-!
# Nodes with the same bytes

Bytes are read in a slot that is known beforehand, and in one slot no two nodes have the same bytes.
The bytes of a node do not say its class, though: a constant starts with its kind, a struct with its
tag, an input or a call with its variant. Names are arbitrary, so nodes of two classes can have the
same bytes, which they do for six pairs of classes and for no others.
-/

namespace Clausal

/-! ### Blobs -/

namespace Wire

variable {a a' bs bs' : Bytes}

lemma blob_eq_ok_iff :
    blob a = .ok bs ↔
      ∃ first more, Compact.Completes first a.length more ∧ bs = first :: (more ++ a) := by
  simp only [blob, Outcome.bind_eq_ok, Outcome.pure_eq_ok, Compact.encode_eq_ok_iff]
  constructor
  · rintro ⟨_, ⟨first, more, rfl, h⟩, rfl⟩
    exact ⟨first, more, h, rfl⟩
  · rintro ⟨first, more, h, rfl⟩
    exact ⟨_, ⟨first, more, rfl, h⟩, rfl⟩

lemma blob_of_completes {n : Nat} {first : UInt8} {more : Bytes} (ha : a.length = n)
    (h : Compact.Completes first n more) : blob a = .ok (first :: (more ++ a)) :=
  blob_eq_ok_iff.mpr ⟨first, more, ha ▸ h, rfl⟩

/-- A first byte that is a number by itself says how many bytes follow. -/
lemma length_of_blob {first : UInt8} (hfirst : first.toNat % 4 = 0)
    (h : blob a = .ok (first :: bs)) : bs.length = first.toNat / 4 := by
  obtain ⟨_, more, hcompletes, hbs⟩ := blob_eq_ok_iff.mp h
  obtain ⟨rfl, rfl⟩ := List.cons.inj hbs
  rw [Compact.Completes, hfirst] at hcompletes
  obtain ⟨hlen, rfl⟩ := hcompletes
  exact hlen

/-- A blob ends where its length says. -/
lemma blob_ne_append {rest : Bytes} (h : blob a = .ok bs) (h' : blob a' = .ok bs')
    (hrest : rest ≠ []) : bs ≠ bs' ++ rest := by
  intro heq
  rw [← List.append_nil bs] at heq
  exact hrest (Reader.Spells.blob.append_inj h h' heq).2.2.symm

/-- A blob is not another blob behind the byte `3`, which announces a length of four bytes. The
length of the shorter blob would start in these four bytes, and the two lengths cannot agree. -/
lemma blob_ne_cons_blob (h : blob a = .ok bs) (h' : blob a' = .ok bs') : bs ≠ 3 :: bs' := by
  rintro rfl
  obtain ⟨_, more, hcompletes, hbs⟩ := blob_eq_ok_iff.mp h
  obtain ⟨rfl, rfl⟩ := List.cons.inj hbs
  obtain ⟨hmore, -, ha, hle⟩ : more.length = 4 ∧ more.getLast? ≠ some 0 ∧
      a.length = Compact.ofLittleEndian more ∧ Compact.quadLimit ≤ a.length := hcompletes
  obtain ⟨m₀, m₁, m₂, m₃, rfl⟩ : ∃ m₀ m₁ m₂ m₃, more = [m₀, m₁, m₂, m₃] :=
    List.length_eq_four.mp hmore
  obtain ⟨_, more', hcompletes', hbs'⟩ := blob_eq_ok_iff.mp h'
  simp only [List.cons_append, List.nil_append, List.cons.injEq] at hbs'
  obtain ⟨rfl, htail⟩ := hbs'
  have hlen : a.length + 3 = more'.length + a'.length := by
    simpa using congrArg List.length htail
  have hlt : a.length < 256 ^ 4 := ha ▸ Compact.ofLittleEndian_lt [m₀, m₁, m₂, m₃]
  obtain ⟨hmore', ha'⟩ | ⟨hmode, hmore', hlast, ha', hle'⟩ := hcompletes'.short_or_counted
  · omega
  have hfour : more'.length = 4 := by
    have hpow : 256 ^ (m₀.toNat / 4 + 3) ≤ a'.length :=
      ha' ▸ (Compact.getLast?_ne_zero_iff hmore').mp hlast
    have hpow' : 256 ^ (m₀.toNat / 4 + 3) < 256 ^ 4 := Nat.lt_of_le_of_lt hpow (by omega)
    have hcount := (Nat.pow_lt_pow_iff_right (by decide)).mp hpow'
    omega
  obtain ⟨b₀, b₁, b₂, b₃, rfl⟩ : ∃ b₀ b₁ b₂ b₃, more' = [b₀, b₁, b₂, b₃] :=
    List.length_eq_four.mp hfour
  simp only [List.cons_append, List.nil_append, List.cons.injEq] at htail
  obtain ⟨rfl, rfl, rfl, -⟩ := htail
  have hm₀ : m₀.toNat = 3 := by
    rw [hfour] at hmore'
    omega
  -- the lengths differ by one, so the shorter would be `0x02020202`, which has a shorter form
  have hm₁ := m₁.toNat_lt
  have hm₂ := m₂.toNat_lt
  have hm₃ := m₃.toNat_lt
  have hb₃ := b₃.toNat_lt
  rw [hfour] at hlen
  simp only [Compact.ofLittleEndian, Compact.quadLimit, hm₀] at ha ha' hle'
  omega

lemma sequence_singleton {α : Type} {encode : α → Outcome Bytes} {x : α}
    (h : encode x = .ok bs) : sequence encode [x] = .ok (4 :: bs) := by
  simp only [sequence, Outcome.bind_eq_ok, Outcome.pure_eq_ok, Outcome.mapM_eq_ok]
  exact ⟨[4], rfl, [bs], .cons h .nil, by simp⟩

/-- Descent paths hold any bytes. -/
lemma selectors_map_toInt8 {n : Bytes} (h : Compact.encode a.length = .ok n) :
    selectors (a.map UInt8.toInt8) = .ok (n ++ a) := by
  simp only [selectors, sequence, Outcome.bind_eq_ok, Outcome.pure_eq_ok, List.length_map,
    Outcome.mapM_eq_ok]
  refine ⟨n, h, a.map fun b => [b], ?_, by rw [← List.flatMap_def, List.flatMap_singleton']⟩
  rw [List.forall₂_map_left_iff, List.forall₂_map_right_iff]
  exact List.forall₂_same.mpr fun b _ => by simp

end Wire

namespace Node

variable {a b n : Node} {bs : Bytes}

/-- Two nodes, each of them well formed, that have the same bytes. -/
structure Homographs (a b : Node) : Prop where
  left : a.WellFormed
  right : b.WellFormed
  exists_encode : ∃ bs, a.encode = .ok bs ∧ b.encode = .ok bs

lemma Homographs.symm (h : Homographs a b) : Homographs b a :=
  ⟨h.right, h.left, h.exists_encode.imp fun _ => And.symm⟩

/-- The pairs of classes of which some nodes have the same bytes. -/
def lookalikes : List (String × String) :=
  [("CompiledPredicate", "AtomicPredicateCall"), ("CompiledPredicate", "ConstantInput"),
    ("Contract", "InputPredicateCall"), ("Contract", "LabelInput"),
    ("ConstantVariable", "ConstantInput"), ("ConstantVariable", "LabelInput")]

/-! ### Nodes of one class -/

/-- The slot in which the nodes of a class are written. -/
def home (className : String) : Slot :=
  match Slot.ofClassName? className with
  | some s => s
  | none => if callVariants.any fun t => t.name == className then .predicateCall else .compiledInput

lemma decode_toNode {s : Slot} {x : s.Value} (hx : s.WellFormed x) (h : s.encode x = .ok bs) :
    decode s bs = .ok (s.toNode x) :=
  Outcome.map_eq_ok.mpr ⟨x, Slot.decode_eq_ok_iff.mpr ⟨hx, h⟩, rfl⟩

lemma decode_home (hn : n.WellFormed) (h : n.encode = .ok bs) :
    decode (home n.className) bs = .ok n := by
  cases n with
  | predicate p => exact decode_toNode (s := .predicate) hn h
  | contract c => exact decode_toNode (s := .contract) hn h
  | proposition p => exact decode_toNode (s := .proposition) hn h
  | constant c => exact decode_toNode (s := .constant) hn h
  | call c => cases c <;> exact decode_toNode (s := .predicateCall) hn h
  | input i =>
    cases i with
    | normal i => exact decode_toNode (s := .normalInput) hn h
    | constant | label | var | self => exact decode_toNode (s := .compiledInput) hn h
  | placeholder name => exact absurd h Outcome.refuse_ne_ok

lemma Homographs.eq_of_className_eq (h : Homographs a b) (hclass : a.className = b.className) :
    a = b := by
  obtain ⟨bs, ha, hb⟩ := h.exists_encode
  have hread := decode_home h.left ha
  rw [hclass, decode_home h.right hb, Except.ok.injEq] at hread
  exact hread.symm

end Node

/-! ### The first bytes -/

namespace NodeTag

/-- The class of the nodes with a tag. -/
def className : NodeTag → String
  | intermediateCompiledPredicate => "Contract"
  | t => t.name

/-- The bytes with which the nodes with a tag start: the tag, and before it the variant of those
that are written behind one. -/
def lead (t : NodeTag) : Bytes :=
  if t ∈ callVariants then [Wire.variant callVariants t, Vocabulary.byte t]
  else if t ∈ inputVariants ∧ t ≠ normalInput then
    [Wire.variant inputVariants t, Vocabulary.byte t]
  else [Vocabulary.byte t]

/-- The first bytes tell all classes apart but lookalikes, and propositions from calls of the bound
predicate. -/
lemma lookalikes_of_lead_isPrefix {t u : NodeTag} (h : t.lead <+: u.lead) :
    t = u ∨ (t.className, u.className) ∈ Node.lookalikes ∨
      t = atomicProposition ∧ u = variablePredicateCall := by
  have hall : ∀ t ∈ (Vocabulary.all : List NodeTag), ∀ u ∈ (Vocabulary.all : List NodeTag),
      t.lead <+: u.lead → t = u ∨ (t.className, u.className) ∈ Node.lookalikes ∨
        t = atomicProposition ∧ u = variablePredicateCall := by decide +kernel
  exact hall t (Vocabulary.Lawful.mem_all t) u (Vocabulary.Lawful.mem_all u) h

lemma length_lead_pos (t : NodeTag) : 0 < t.lead.length := by
  unfold lead
  split_ifs <;> exact Nat.succ_pos _

/-- The nodes that start like a constant. -/
lemma lookalikes_of_kind_isPrefix {k : VarKind} {t : NodeTag} (h : [Vocabulary.byte k] <+: t.lead) :
    ("ConstantVariable", t.className) ∈ Node.lookalikes ∨ t ∈ [compiledPredicate,
      intermediateCompiledPredicate, atomicPredicateCall, inputPredicateCall] := by
  have hall : ∀ k ∈ (Vocabulary.all : List VarKind), ∀ t ∈ (Vocabulary.all : List NodeTag),
      [Vocabulary.byte k] <+: t.lead → ("ConstantVariable", t.className) ∈ Node.lookalikes ∨
        t ∈ [compiledPredicate, intermediateCompiledPredicate, atomicPredicateCall,
          inputPredicateCall] := by decide +kernel
  exact hall k (Vocabulary.Lawful.mem_all k) t (Vocabulary.Lawful.mem_all t) h

end NodeTag

/-- Every input starts with its tag. -/
lemma Input.exists_cons {i : Input} {struct : Bytes} (h : i.encodeStruct = .ok struct) :
    ∃ fields, struct = Vocabulary.byte i.tag :: fields := by
  cases i with
  | constant | label | self =>
    simp only [encodeStruct, Outcome.bind_eq_ok, Outcome.pure_eq_ok] at h
    obtain ⟨fields, -, rfl⟩ := h
    exact ⟨fields, rfl⟩
  | normal n =>
    simp only [encodeStruct, NormalInput.encode, Outcome.bind_eq_ok, Outcome.pure_eq_ok] at h
    obtain ⟨children, -, rfl⟩ := h
    exact ⟨_, rfl⟩
  | var =>
    simp only [encodeStruct, Outcome.bind_eq_ok, Outcome.pure_eq_ok] at h
    obtain ⟨placeholder, -, children, -, rfl⟩ := h
    exact ⟨_, rfl⟩

/-! ### What is more than a name

Behind its kind, a constant has nothing but the blob of its name.
-/

section

variable {first : UInt8} {a bs : Bytes}

lemma Predicate.blob_ne_of_encode {p : Predicate} (h : p.encode = .ok (first :: bs)) :
    Wire.blob a ≠ .ok bs := by
  simp only [encode, Outcome.bind_eq_ok, Outcome.pure_eq_ok, List.cons.injEq,
    List.append_assoc] at h
  obtain ⟨bs₁, h₁, bs₂, -, bs₃, -, bs₄, -, bs₅, h₅, -, rfl⟩ := h
  have hrest : bs₂ ++ (bs₃ ++ (bs₄ ++ bs₅)) ≠ [] := by simp [Wire.blob_ne_nil h₅]
  intro ha
  exact Wire.blob_ne_append ha h₁ hrest rfl

lemma Contract.blob_ne_of_encode {c : Contract} (h : c.encode = .ok (first :: bs)) :
    Wire.blob a ≠ .ok bs := by
  simp only [encode, Outcome.bind_eq_ok, Outcome.pure_eq_ok, List.cons.injEq,
    List.append_assoc] at h
  obtain ⟨bs₁, h₁, bs₂, -, bs₃, -, bs₄, -, bs₅, -, -, rfl⟩ := h
  intro ha
  exact Wire.blob_ne_append ha h₁ (by simp) rfl

/-- The tag of a call can be the first byte of a length, but never of the right one. -/
lemma Call.blob_ne_of_encode {c : Call} (hc : c.tag ∈ [.atomicPredicateCall, .inputPredicateCall])
    (h : c.encode = .ok (first :: bs)) : Wire.blob a ≠ .ok bs := by
  obtain ⟨source, hsource, heq⟩ := Call.encode_eq_ok_iff.mp h
  obtain ⟨-, rfl⟩ := List.cons.inj heq
  intro ha
  cases c with
  -- two strings of bytes of different lengths do not continue each other
  | atomic => exact Wire.blob_ne_cons_blob ha hsource rfl
  | input i =>
    simp only [encodeSource, NormalInput.encode, Outcome.bind_eq_ok,
      Outcome.pure_eq_ok] at hsource
    obtain ⟨children, -, rfl⟩ := hsource
    -- what follows the tag of an input call is no length of a string: it is one too short
    have hfour : (4 : UInt8).toNat % 4 = 0 := rfl
    have hlen := Wire.length_of_blob hfour ha
    simp at hlen
  | var | compiled => simp [Call.tag] at hc

end

namespace Node

variable {a b n : Node} {bs : Bytes} {t u : NodeTag}

lemma className_of_tag? (h : n.tag? = some t) : n.className = t.className := by
  cases n with
  | input i => cases i <;> cases h <;> rfl
  | call c => cases c <;> cases h <;> rfl
  | proposition | contract | predicate => cases h; rfl
  | placeholder | constant => cases h

lemma lead_isPrefix (ht : n.tag? = some t) (h : n.encode = .ok bs) : t.lead <+: bs := by
  -- the bytes begin with the tag and what the class fixes behind it
  cases n with
  | predicate p =>
    simp only [encode, Predicate.encode, Outcome.bind_eq_ok, Outcome.pure_eq_ok] at h
    obtain ⟨_, -, _, -, _, -, _, -, _, -, rfl⟩ := h
    cases ht
    exact ⟨_, rfl⟩
  | contract c =>
    simp only [encode, Contract.encode, Outcome.bind_eq_ok, Outcome.pure_eq_ok] at h
    obtain ⟨_, -, _, -, _, -, _, -, _, -, rfl⟩ := h
    cases ht
    exact ⟨_, rfl⟩
  | proposition p =>
    simp only [encode, Proposition.encode, Outcome.bind_eq_ok, Outcome.pure_eq_ok] at h
    obtain ⟨_, -, _, -, rfl⟩ := h
    cases ht
    exact ⟨_, rfl⟩
  | call c =>
    obtain ⟨source, -, rfl⟩ := Call.encode_eq_ok_iff.mp h
    cases c <;> cases ht <;> exact ⟨source, rfl⟩
  | input i =>
    cases i with
    | normal i =>
      obtain ⟨fields, rfl⟩ := Input.exists_cons (i := .normal i) h
      cases ht
      exact ⟨fields, rfl⟩
    | constant | label | var | self =>
      obtain ⟨struct, hstruct, rfl⟩ := Input.encode_eq_ok_iff.mp h
      obtain ⟨fields, rfl⟩ := Input.exists_cons hstruct
      cases ht
      exact ⟨fields, rfl⟩
  | placeholder | constant => cases ht

lemma length_of_proposition (ht : n.tag? = some .atomicProposition) (h : n.encode = .ok bs) :
    2 < bs.length := by
  cases n with
  | proposition p =>
    simp only [encode, Proposition.encode, Outcome.bind_eq_ok, Outcome.pure_eq_ok] at h
    obtain ⟨call, hcall, inputs, -, rfl⟩ := h
    obtain ⟨source, -, rfl⟩ := Call.encode_eq_ok_iff.mp hcall
    simp
  | input i => cases i <;> cases ht
  | call c => cases c <;> cases ht
  | contract | predicate | placeholder | constant => cases ht

lemma length_of_variableCall (ht : n.tag? = some .variablePredicateCall)
    (h : n.encode = .ok bs) : bs.length = 2 := by
  cases n with
  | call c =>
    cases c with
    | var => cases h; rfl
    | atomic | input | compiled => cases ht
  | input i => cases i <;> cases ht
  | proposition | contract | predicate | placeholder | constant => cases ht

/-- Two nodes with tags have the same bytes only if their classes are lookalikes. -/
lemma lookalikes_of_tags (ht : a.tag? = some t) (hu : b.tag? = some u) (ha : a.encode = .ok bs)
    (hb : b.encode = .ok bs) (hclass : a.className ≠ b.className) (hlead : t.lead <+: u.lead) :
    (a.className, b.className) ∈ lookalikes := by
  rw [className_of_tag? ht, className_of_tag? hu] at hclass ⊢
  obtain rfl | h | ⟨rfl, rfl⟩ := NodeTag.lookalikes_of_lead_isPrefix hlead
  · exact absurd rfl hclass
  · exact h
  · have hlt := length_of_proposition ht ha
    have heq := length_of_variableCall hu hb
    omega

/-- A constant has the bytes of another node only if their classes are lookalikes. -/
lemma lookalikes_of_constant {c : Constant} (hc : c.encode = .ok bs) (ht : b.tag? = some t)
    (hb : b.encode = .ok bs) : ("ConstantVariable", b.className) ∈ lookalikes := by
  simp only [Constant.encode, Outcome.bind_eq_ok, Outcome.pure_eq_ok] at hc
  obtain ⟨name, hname, rfl⟩ := hc
  have hlead : [Vocabulary.byte c.kind] <+: t.lead :=
    List.prefix_of_prefix_length_le ⟨name, rfl⟩ (lead_isPrefix ht hb) t.length_lead_pos
  rw [className_of_tag? ht]
  -- the kind of a constant is one byte, the first of a tag or of a variant
  obtain h | h := NodeTag.lookalikes_of_kind_isPrefix hlead
  · exact h
  cases b with
  | predicate p => exact absurd hname (Predicate.blob_ne_of_encode hb)
  | contract k => exact absurd hname (Contract.blob_ne_of_encode hb)
  | call d =>
    cases d with
    | atomic | input => exact absurd hname (Call.blob_ne_of_encode (by simp [Call.tag]) hb)
    | var | compiled => cases ht; simp [Call.tag] at h
  | input i => cases ht; cases i <;> simp [Input.tag] at h
  | proposition | placeholder | constant => cases ht <;> simp at h

lemma exists_constant_of_tag? (ht : n.tag? = none) (h : n.encode = .ok bs) :
    ∃ c : Constant, n = constant c ∧ c.encode = .ok bs := by
  cases n with
  | constant c => exact ⟨c, rfl, h⟩
  | placeholder name => exact absurd h Outcome.refuse_ne_ok
  | input | call | proposition | contract | predicate => cases ht

lemma Homographs.mem_lookalikes (h : Homographs a b) (hclass : a.className ≠ b.className) :
    (a.className, b.className) ∈ lookalikes ∨ (b.className, a.className) ∈ lookalikes := by
  obtain ⟨bs, ha, hb⟩ := h.exists_encode
  cases ht : a.tag? with
  | none =>
    obtain ⟨c, rfl, hc⟩ := exists_constant_of_tag? ht ha
    cases hu : b.tag? with
    | none =>
      obtain ⟨d, rfl, -⟩ := exists_constant_of_tag? hu hb
      exact absurd rfl hclass
    | some u => exact .inl (lookalikes_of_constant hc hu hb)
  | some t =>
    cases hu : b.tag? with
    | none =>
      obtain ⟨d, rfl, hd⟩ := exists_constant_of_tag? hu hb
      exact .inr (lookalikes_of_constant hd ht ha)
    | some u =>
      -- both begin with the bytes of their tags, so that one of the two continues the other
      obtain hlead | hlead :=
        List.prefix_or_prefix_of_prefix (lead_isPrefix ht ha) (lead_isPrefix hu hb)
      · exact .inl (lookalikes_of_tags ht hu ha hb hclass hlead)
      · exact .inr (lookalikes_of_tags hu ht hb ha hclass.symm hlead)

/-! ### Names that are read as other nodes

In each pair the length of a name serves as the tag of an input or a call, and the name itself holds
the length that belongs there.
-/

lemma homographs_constant_constantInput (x : UInt8) :
    Homographs (constant ⟨.address, [4, x]⟩) (input (.constant [x])) :=
  ⟨trivial, trivial, [0, 8, 4, x], rfl, rfl⟩

lemma homographs_constant_labelInput (text : Bytes) (htext : text.length = 321) :
    Homographs (constant ⟨.bytes, 5 :: text⟩) (input (.label text)) where
  left := trivial
  right := trivial
  exists_encode := by
    have hname : Wire.blob (5 :: text) = .ok (9 :: ([5] ++ 5 :: text)) :=
      Wire.blob_of_completes (n := 322) (by rw [List.length_cons, htext]) ⟨rfl, rfl, by decide⟩
    have hlabel : Wire.blob text = .ok (5 :: ([5] ++ text)) :=
      Wire.blob_of_completes htext ⟨rfl, rfl, by decide⟩
    refine ⟨[1, 9, 5, 5] ++ text, ?_, ?_⟩
    · simp only [encode, Constant.encode, hname, Outcome.ok_bind]
      rfl
    · simp only [encode, Input.encode, Input.encodeStruct, hlabel, Outcome.ok_bind]
      rfl

lemma homographs_predicate_constantInput (x y : UInt8) :
    Homographs
      (predicate { name := [24, x], inputDefs := [], contracts := [], entryPoint := [y] })
      (input (.constant [x, 0, 0, 0, 4, y])) where
  left := {
    contractNames := .nil
    constantNames := .nil
    entryPoint := List.cons_ne_nil _ _
    contracts := by simp }
  right := trivial
  exists_encode := ⟨[0, 8, 24, x, 0, 0, 0, 4, y], rfl, rfl⟩

/-- The tag of such a call announces four bytes of length, so the name has more than `2 ^ 30`
bytes. -/
lemma homographs_predicate_atomicCall (name entryPoint : Bytes)
    (hname : name.length = 2 ^ 30 + 2) (hentry : entryPoint.length = 2 ^ 22 - 9) :
    Homographs
      (predicate { name := 0x40 :: name, inputDefs := [], contracts := [], entryPoint })
      (call (.atomic (name ++ [0, 0, 0, 0xde, 0xff, 0xff, 0] ++ entryPoint))) where
  left := {
    contractNames := .nil
    constantNames := .nil
    entryPoint := by rintro rfl; simp at hentry
    contracts := by simp }
  right := trivial
  exists_encode := by
    -- the lengths are chosen so that their own spelling holds the bytes where the classes differ
    have hname' : Wire.blob (0x40 :: name) = .ok (3 :: ([3, 0, 0, 0x40] ++ 0x40 :: name)) := by
      refine Wire.blob_of_completes (n := 2 ^ 30 + 3) ?_ ⟨rfl, by decide, rfl, by decide⟩
      rw [List.length_cons, hname]
    have hentry' : Wire.blob entryPoint = .ok (0xde :: ([0xff, 0xff, 0] ++ entryPoint)) :=
      Wire.blob_of_completes hentry ⟨rfl, rfl, by decide⟩
    have hsource : Wire.blob (name ++ [0, 0, 0, 0xde, 0xff, 0xff, 0] ++ entryPoint) =
        .ok (3 :: ([0, 0, 0x40, 0x40] ++
          (name ++ [0, 0, 0, 0xde, 0xff, 0xff, 0] ++ entryPoint))) := by
      refine Wire.blob_of_completes (n := 2 ^ 30 + 2 ^ 22) ?_ ⟨rfl, by decide, rfl, by decide⟩
      simp [hname, hentry]
    refine ⟨[0, 3, 3, 0, 0, 0x40, 0x40] ++
      (name ++ [0, 0, 0, 0xde, 0xff, 0xff, 0] ++ entryPoint), ?_, ?_⟩
    · simp only [encode, Predicate.encode, Outcome.bind_eq_ok, Outcome.pure_eq_ok]
      exact ⟨_, hname', [0], rfl, [0], rfl, [0], rfl, _, hentry', by simp; rfl⟩
    · simp only [encode, Call.encode, Call.encodeSource, hsource, Outcome.ok_bind]
      rfl

lemma homographs_contract_labelInput (name placeholder : Bytes) (hname : name.length = 65)
    (hplaceholder : placeholder.length = 56) :
    Homographs
      (contract {
        name := 2 :: name
        origin := []
        connective := .not
        inputDefs := []
        inputs := [.placeholder placeholder] })
      (input (.label (name ++ [0, 2, 0, 4, 1, 224] ++ placeholder ++ [0]))) where
  left := .negation _
  right := trivial
  exists_encode := by
    have hname' : Wire.blob (2 :: name) = .ok (9 :: ([1] ++ 2 :: name)) :=
      Wire.blob_of_completes (n := 66) (by rw [List.length_cons, hname]) ⟨rfl, rfl, by decide⟩
    have hplaceholder' : Wire.blob placeholder = .ok (224 :: ([] ++ placeholder)) :=
      Wire.blob_of_completes hplaceholder ⟨rfl, rfl⟩
    have hlabel : Wire.blob (name ++ [0, 2, 0, 4, 1, 224] ++ placeholder ++ [0]) =
        .ok (1 :: ([2] ++ (name ++ [0, 2, 0, 4, 1, 224] ++ placeholder ++ [0]))) := by
      refine Wire.blob_of_completes (n := 128) ?_ ⟨rfl, rfl, by decide⟩
      simp only [List.length_append, List.length_cons, List.length_nil, hname, hplaceholder]
    have hentry : Entry.encode (.placeholder placeholder) = .ok ([1, 224] ++ placeholder) := by
      simp only [Entry.encode, hplaceholder', Outcome.ok_bind]
      rfl
    refine ⟨[1, 9, 1, 2] ++ (name ++ [0, 2, 0, 4, 1, 224] ++ placeholder ++ [0]), ?_, ?_⟩
    · simp only [encode, Contract.encode, Outcome.bind_eq_ok, Outcome.pure_eq_ok]
      exact ⟨_, hname', [0], rfl, [0], rfl, _, Wire.sequence_singleton hentry, [0], rfl,
        by simp; decide⟩
    · simp only [encode, Input.encode, Input.encodeStruct, hlabel, Outcome.ok_bind]
      rfl

/-- The parameters and the inputs of a quantifier serve as a descent path. -/
lemma homographs_contract_inputCall (name : Bytes) (hname : name.length = 246) :
    Homographs
      (contract {
        name := [10]
        origin := []
        connective := .forAll
        inputDefs := [name]
        inputs := [.placeholder [], .placeholder [], .placeholder []] })
      (call (.input {
        index := 0
        children := ([0xd9, 3] ++ name ++ [12, 1, 0, 1, 0, 1, 0, 0]).map UInt8.toInt8 })) where
  left := .quantifier rfl _ _ _
  right := trivial
  exists_encode := by
    -- a quantifier with empty names has just the bytes that selectors may have
    have hname' : Wire.blob name = .ok (0xd9 :: ([3] ++ name)) :=
      Wire.blob_of_completes hname ⟨rfl, rfl, by decide⟩
    have hlength : Compact.encode ([0xd9, 3] ++ name ++ [12, 1, 0, 1, 0, 1, 0, 0]).length =
        .ok [1, 4] := by
      simp only [List.length_append, hname]
      rfl
    have hchildren := Wire.selectors_map_toInt8 hlength
    refine ⟨[1, 4, 10, 0, 1, 4] ++ ([0xd9, 3] ++ name ++ [12, 1, 0, 1, 0, 1, 0, 0]), ?_, ?_⟩
    · simp only [encode, Contract.encode, Outcome.bind_eq_ok, Outcome.pure_eq_ok]
      exact ⟨[4, 10], rfl, [0], rfl, _, Wire.sequence_singleton hname', [12, 1, 0, 1, 0, 1, 0],
        rfl, [0], rfl, by simp; decide⟩
    · simp only [encode, Call.encode, Call.encodeSource, NormalInput.encode, hchildren,
        Outcome.ok_bind]
      rfl

lemma exists_homographs {c d : String} (h : (c, d) ∈ lookalikes) :
    ∃ a b, Homographs a b ∧ a.className = c ∧ b.className = d := by
  simp only [lookalikes, List.mem_cons, Prod.mk.injEq, List.not_mem_nil, or_false] at h
  obtain ⟨rfl, rfl⟩ | ⟨rfl, rfl⟩ | ⟨rfl, rfl⟩ | ⟨rfl, rfl⟩ | ⟨rfl, rfl⟩ | ⟨rfl, rfl⟩ := h
  · exact ⟨_, _, homographs_predicate_atomicCall (.replicate _ 0) (.replicate _ 0)
      List.length_replicate List.length_replicate, rfl, rfl⟩
  · exact ⟨_, _, homographs_predicate_constantInput 0 0, rfl, rfl⟩
  · exact ⟨_, _, homographs_contract_inputCall (.replicate _ 0) List.length_replicate, rfl, rfl⟩
  · exact ⟨_, _, homographs_contract_labelInput (.replicate _ 0) (.replicate _ 0)
      List.length_replicate List.length_replicate, rfl, rfl⟩
  · exact ⟨_, _, homographs_constant_constantInput 0, rfl, rfl⟩
  · exact ⟨_, _, homographs_constant_labelInput (.replicate _ 0) List.length_replicate, rfl, rfl⟩

/-! ### Which nodes have the same bytes -/

/-- Different nodes can have the same bytes: a constant that holds an address, and an input that
refers to a constant. -/
theorem exists_homographs_ne :
    (constant ⟨.address, [4, 0x63]⟩).encode = .ok [0, 8, 4, 0x63] ∧
    (input (.constant [0x63])).encode = .ok [0, 8, 4, 0x63] ∧
    Homographs (constant ⟨.address, [4, 0x63]⟩) (input (.constant [0x63])) ∧
    constant ⟨.address, [4, 0x63]⟩ ≠ input (.constant [0x63]) :=
  ⟨rfl, rfl, homographs_constant_constantInput 0x63, by simp⟩

/-- Two nodes of one class with the same bytes are equal. Two classes have nodes with the same bytes
exactly if they are lookalikes. -/
theorem homographs_iff_lookalikes :
    (∀ a b : Node, Homographs a b → a.className = b.className → a = b) ∧
    ∀ c d : String, c ≠ d →
      ((∃ a b, Homographs a b ∧ a.className = c ∧ b.className = d) ↔
        (c, d) ∈ lookalikes ∨ (d, c) ∈ lookalikes) := by
  refine ⟨fun a b h => h.eq_of_className_eq, fun c d hne => ⟨?_, ?_⟩⟩
  · rintro ⟨a, b, h, rfl, rfl⟩
    exact h.mem_lookalikes hne
  · rintro (h | h)
    · exact exists_homographs h
    · obtain ⟨a, b, hab, rfl, rfl⟩ := exists_homographs h
      exact ⟨b, a, hab.symm, rfl, rfl⟩

theorem homographs_iff_lookalikes_contract :
    (Homographs (constant ⟨.bytes, [0x61]⟩) (constant ⟨.bytes, [0x61]⟩) ∧
      constant ⟨.bytes, [0x61]⟩ = constant ⟨.bytes, [0x61]⟩) ∧
    ("Contract" ≠ "InputPredicateCall" ∧
      ∃ a b, Homographs a b ∧ a.className = "Contract" ∧ b.className = "InputPredicateCall") ∧
    ("CompiledPredicate" ≠ "Contract" ∧
      ¬∃ a b, Homographs a b ∧ a.className = "CompiledPredicate" ∧ b.className = "Contract") := by
  obtain ⟨heq, hiff⟩ := homographs_iff_lookalikes
  have hconstant : Homographs (constant ⟨.bytes, [0x61]⟩) (constant ⟨.bytes, [0x61]⟩) :=
    ⟨trivial, trivial, [1, 4, 0x61], rfl, rfl⟩
  refine ⟨⟨hconstant, heq _ _ hconstant rfl⟩, ⟨by decide, ?_⟩, ⟨by decide, ?_⟩⟩
  · exact (hiff _ _ (by decide)).mpr (.inl (by decide))
  · rw [hiff _ _ (by decide)]
    decide

end Node

end Clausal
