import Clausal.Proofs.Authoring.Blame
import Clausal.Proofs.Authoring.Role
import Clausal.Proofs.Enclosure.Reachability

/-!
# Documents explain their faults

What is read as a node explains every fault of reading it: the faults of values of the wrong type,
of missing and unknown fields, of numbers out of range, and those of checking the parts of a node
together. It explains the faults of validating the node as well.
-/

namespace Clausal

open Json (Explains)
open Members (get? HasName HasItems)

variable {config : Config} {j : Json} {ms : Members}

/-! ### Numbers -/

lemma Json.Explains.inputIndex (n : Int) : (int n).Explains (Clausal.inputIndex n) := by
  unfold Clausal.inputIndex
  split
  · exact .ok _
  · exact .refuseShowing rfl

lemma Json.Explains.selector (n : Int) : (int n).Explains (Clausal.selector n) := by
  unfold Clausal.selector
  split
  · exact .ok _
  · exact .refuseShowing rfl

lemma Json.Explains.selectors {ns : List Int} (h : Members.children ms = .ok ns) :
    (object ms).Explains (Clausal.inField "children" (Clausal.selectors ns)) := by
  obtain ⟨-, rfl⟩ | ⟨v, hget, -, hv⟩ := Members.optional_eq_ok.mp h
  · exact .ok []
  · obtain ⟨js, rfl, hjs⟩ := Json.asItems_eq_ok.mp hv
    refine .inField (by decide) hget (.forItems hjs fun v n hn => ?_)
    obtain rfl := Json.asInteger_eq_ok.mp hn
    exact .selector n

/-! ### Reading nodes -/

lemma NormalInput.explains_ofJson {cause : NodeTag → Cause}
    (hcause : ∀ t, ((cause t).kind == .unknownField) = false) (j : Json) :
    j.Explains (NormalInput.ofJson config cause j) := by
  refine (Explains.members config _).bind fun ms hms => ?_
  -- reading goes over the fields in this order, and each step explains its own failure
  obtain ⟨rfl, -⟩ := Members.ofJson_eq_ok.mp hms
  refine (Explains.expectTag hcause).bind fun _ _ =>
    (Explains.required (by decide) fun _ => .asInteger).bind fun n hn =>
    Explains.children.bind fun ns hns => ?_
  obtain ⟨v, hget, hv⟩ := Members.required_eq_ok.mp hn
  obtain rfl := Json.asInteger_eq_ok.mp hv
  exact (Explains.inField (by decide) hget (.inputIndex n)).bind fun _ _ =>
    (Explains.selectors hns).bind fun _ _ => .ok _

lemma Input.explains_ofJson (j : Json) : j.Explains (Input.ofJson config j) := by
  refine Explains.asMembers.bind fun ms hms => ?_
  obtain rfl := Json.asMembers_eq_ok.mp hms
  refine (Explains.tag fun _ => rfl).bind fun t _ =>
    (Explains.checkFields config _).bind fun _ _ => ?_
  split
  · exact (NormalInput.explains_ofJson (fun _ => rfl) _).map
  · exact (Explains.requiredName (by decide)).map
  · exact (Explains.requiredName (by decide)).map
  · exact (Explains.requiredName (by decide)).bind fun _ _ =>
      Explains.children.bind fun _ hns => (Explains.selectors hns).map
  · exact Explains.children.bind fun _ hns => (Explains.selectors hns).map

lemma Call.explains_ofJson (j : Json) : j.Explains (Call.ofJson config j) := by
  refine Explains.asMembers.bind fun ms hms => ?_
  obtain rfl := Json.asMembers_eq_ok.mp hms
  refine (Explains.tag fun _ => rfl).bind fun t _ =>
    (Explains.checkFields config _).bind fun _ _ => ?_
  split
  · exact .ok _
  · refine (Explains.required (by decide) fun v => ?_).map
    split
    · exact NormalInput.explains_ofJson (fun _ => rfl) _
    · exact .refuse rfl
  · exact (Explains.requiredName (by decide)).map
  · exact (Explains.requiredName (by decide)).map

lemma Proposition.explains_ofJson (j : Json) : j.Explains (Proposition.ofJson config j) := by
  refine (Explains.members config _).bind fun ms hms => ?_
  obtain ⟨rfl, -⟩ := Members.ofJson_eq_ok.mp hms
  exact (Explains.expectTag fun _ => rfl).bind fun _ _ =>
    (Explains.required (by decide) Call.explains_ofJson).bind fun _ _ =>
    (Explains.required (by decide) fun _ => .asItems Input.explains_ofJson).bind fun _ _ =>
    (Explains.optional (by decide) fun _ => Explains.asBoolean.map).bind fun _ _ => .ok _

lemma Entry.explains_ofJson (j : Json) : j.Explains (Entry.ofJson config j) := by
  cases j with
  | string t => exact (Explains.textBytes t).map
  | object ms => exact (Proposition.explains_ofJson _).map
  | _ => exact .refuse rfl

/-- The inputs of a contract explain why its connective cannot join them. -/
lemma Connective.explains_shape {c : Connective} {es : List Entry} {R : Json → Entry → Prop}
    (h : HasItems ms "inputs" R es) : (Json.object ms).Explains (c.shape es) := by
  obtain ⟨js, hget, hjs⟩ := h
  refine (c.failsOnly_shape es).mono ?_
  -- a wrong shape is reported at the inputs as a whole or at one of them
  rintro _ ⟨cause, p, hkind, hp, rfl⟩
  have hcause : cause.kind ≠ .unknownField := hkind ▸ by decide
  have harray : (Failure.fault ⟨cause, p, none⟩).Concerns (.array js) := by
    obtain rfl | ⟨i, hi, rfl⟩ := hp
    · exact .part Json.follow?_nil Path.isPlain_nil hcause
    · obtain ⟨v, hv, -⟩ := Outcome.exists_getElem?_of_forall₂ hjs (List.getElem?_eq_getElem hi)
      have hitem : (Json.array js).part? (.item i) = some v := hv
      exact .part (Json.follow?_cons_of_part? hitem) (List.forall_mem_singleton.mpr trivial) hcause
  exact harray.under (Json.part?_of_get hget)
    (show (Text.ofString "inputs").IsPlain by decide)

lemma Contract.explains_ofJson (j : Json) : j.Explains (Contract.ofJson config j) := by
  refine (Explains.members config _).bind fun ms hms => ?_
  obtain ⟨rfl, -⟩ := Members.ofJson_eq_ok.mp hms
  refine (Explains.expectTag fun _ => rfl).bind fun _ _ =>
    (Explains.requiredName (by decide)).bind fun _ _ =>
    (Explains.requiredName (by decide)).bind fun _ _ =>
    (Explains.required (by decide) fun _ => .asSymbol).bind fun _ _ =>
    (Explains.requiredNames (by decide)).bind fun _ _ =>
    (Explains.required (by decide) fun _ => .asItems Entry.explains_ofJson).bind fun es hes =>
    (Explains.optional (by decide) fun _ =>
      .asItems (NormalInput.explains_ofJson (fun _ => rfl))).bind fun _ _ => ?_
  have hinputs := (Members.required_asItems_eq_ok fun j e => Entry.ofJson_eq_ok).mp hes
  exact (Connective.explains_shape hinputs).bind fun _ _ => .ok _

lemma Constant.explains_ofJson (j : Json) : j.Explains (Constant.ofJson config j) := by
  refine (Explains.members config _).bind fun ms hms => ?_
  obtain ⟨rfl, -⟩ := Members.ofJson_eq_ok.mp hms
  exact (Explains.required (by decide) fun _ => .asSymbol).bind fun _ _ =>
    (Explains.requiredName (by decide)).bind fun _ _ => .ok _

/-- The names of items explain why they are not distinct. -/
lemma explains_distinctNames {α : Type} {js : List Json} {as : List α} {name : α → Bytes}
    (h : List.Forall₂ (fun j a => ∃ ms, j = .object ms ∧ HasName ms "name" (name a)) js as) :
    (Json.array js).Explains (distinctNames [] (as.map name)) := by
  -- a repeated name is reported at the `name` of the item which repeats it
  refine (failsOnly_distinctNames [] (as.map name)).mono ?_
  rintro _ ⟨i, n, hi, rfl⟩
  rw [List.length_map] at hi
  obtain ⟨_, hi, ms, rfl, v, hget, -⟩ :=
    Outcome.exists_getElem?_of_forall₂ h (List.getElem?_eq_getElem hi)
  have hitem : (Json.array js).part? (.item i) = some (.object ms) := hi
  have hname : (Failure.fault ⟨.duplicateName n, [], none⟩).Concerns v :=
    .part Json.follow?_nil Path.isPlain_nil (beq_eq_false_iff_ne.mp rfl)
  rw [List.length_nil, Nat.zero_add]
  exact (hname.under (Json.part?_of_get hget)
    (show (Text.ofString "name").IsPlain by decide)).under hitem trivial

lemma Predicate.explains_ofJson (j : Json) : j.Explains (Predicate.ofJson config j) := by
  refine (Explains.members config _).bind fun ms hms => ?_
  obtain ⟨rfl, -⟩ := Members.ofJson_eq_ok.mp hms
  refine (Explains.expectTag fun _ => rfl).bind fun _ _ =>
    (Explains.requiredName (by decide)).bind fun _ _ =>
    (Explains.requiredNames (by decide)).bind fun _ _ =>
    (Explains.required (by decide) fun _ => .asItems Contract.explains_ofJson).bind fun cs hcs =>
    (Explains.optional (by decide) fun _ =>
      (Explains.asItems Constant.explains_ofJson).map).bind fun ks hks =>
    (Explains.requiredName (by decide)).bind fun entry hentry => ?_
  obtain ⟨contracts, hcontracts, hcs⟩ :=
    (Members.required_asItems_eq_ok fun j c => Contract.ofJson_eq_ok).mp hcs
  have hks := (Members.optional_some_eq_ok (R := Constant.AllDenotedBy config)
    (by simp [Constant.AllDenotedBy]) fun j cs => Constant.asItems_ofJson_eq_ok).mp hks
  obtain ⟨v, hentryPoint, -⟩ := Members.required_asName_eq_ok.mp hentry
  refine (Explains.inField (by decide) hcontracts
    (explains_distinctNames (hcs.imp ?_))).bind fun _ _ => ?_
  · rintro j c ⟨-, ms, rfl, -, hc⟩
    exact ⟨ms, rfl, hc.name⟩
  have hconstants : (Json.object ms).Explains
      (inField "constants" (distinctNames [] ((ks.getD []).map Constant.name))) := by
    cases ks with
    | none => exact .ok ()
    | some ks =>
      obtain ⟨_, hconstants, constants, rfl, hks⟩ := hks
      refine .inField (by decide) hconstants (explains_distinctNames (hks.imp ?_))
      rintro j c ⟨ms, rfl, -, hc⟩
      exact ⟨ms, rfl, hc.name⟩
  refine hconstants.bind fun _ _ => ?_
  split
  · exact (Explains.inField (by decide) hentryPoint (.refuse rfl)).bind fun _ _ => .ok _
  · exact .ok _

/-! ### Validation -/

lemma NormalInput.explains_validate {arity : Nat} {i : NormalInput} (h : i.DenotedBy config j) :
    j.Explains (i.validate arity) := by
  obtain ⟨ms, rfl, -, hi⟩ := h
  unfold validate
  split
  · exact .ok ()
  · exact .inField (by decide) hi.index (.refuse rfl)

lemma explains_checkVisible {scope : List Bytes} {name : Bytes} :
    j.Explains (checkVisible scope name) := by
  unfold checkVisible
  split
  · exact .ok ()
  · exact .refuse rfl

lemma Input.explains_validate {arity : Nat} {scope : List Bytes} {i : Input}
    (h : i.DenotedBy config j) : j.Explains (i.validate arity scope) := by
  obtain ⟨ms, rfl, htag, hi⟩ := h
  cases i with
  | normal i => exact NormalInput.explains_validate ⟨ms, rfl, htag, hi⟩
  | var name cs =>
    obtain ⟨v, hget, -⟩ := hi.1
    exact .inField (by decide) hget explains_checkVisible
  | constant | label | self => exact .ok ()

lemma Call.explains_validate {arity : Nat} {c : Call} (h : c.DenotedBy config j) :
    j.Explains (c.validate arity) := by
  obtain ⟨ms, rfl, -, hc⟩ := h
  cases c with
  | input i =>
    obtain ⟨v, hget, hv⟩ := hc
    exact .inField (by decide) hget (NormalInput.explains_validate hv)
  | atomic | compiled | var => exact .ok ()

lemma Proposition.explains_validate {arity : Nat} {scope : List Bytes} {p : Proposition}
    (h : p.DenotedBy config j) : j.Explains (p.validate arity scope) := by
  obtain ⟨ms, rfl, -, hp⟩ := h
  obtain ⟨v, hcall, hv⟩ := hp.call
  obtain ⟨js, hinputs, hjs⟩ := hp.inputs
  exact (Explains.inField (by decide) hcall (Call.explains_validate hv)).bind fun _ _ =>
    (Explains.inField (by decide) hinputs (.forItems hjs fun _ _ => Input.explains_validate)).bind
      fun _ _ => .ok ()

lemma Entry.explains_validate {arity : Nat} {scope : List Bytes} {e : Entry}
    (h : e.DenotedBy config j) : j.Explains (e.validate arity scope) := by
  cases e with
  | proposition p => exact Proposition.explains_validate h
  | placeholder => exact .ok ()

lemma Contract.explains_validate {inherited : List Bytes} {ownerDefs : Option (List Bytes)}
    {c : Contract} (h : c.DenotedBy config j) : j.Explains (c.validate inherited ownerDefs) := by
  obtain ⟨ms, rfl, -, hc⟩ := h
  obtain ⟨js, hinputs, hjs⟩ := hc.inputs
  -- bodies fail at the items of `inputs`, the parameters of the owner at those of `propertyInputs`
  refine (Explains.inField (by decide) hinputs (Outcome.FailsOnly.forM ?_)).bind fun _ _ => ?_
  · rintro ⟨i, e⟩ hbody
    obtain ⟨v, hv, he⟩ :=
      Outcome.exists_getElem?_of_forall₂ hjs (Contract.mem_bodies_iff.mp hbody).1
    exact Explains.inItem hv (Entry.explains_validate he)
  · cases ownerDefs with
    | none => exact .ok _
    | some defs =>
      obtain ⟨-, hnil⟩ | ⟨js, hproperties, hjs⟩ := hc.propertyInputs
      · simp only [hnil]
        exact .ok _
      · exact (Explains.inField (by decide) hproperties (.forItems hjs fun _ _ =>
          NormalInput.explains_validate)).bind fun _ _ => .ok _

lemma Predicate.explains_validate {p : Predicate} (h : p.DenotedBy config j) :
    j.Explains p.validate := by
  obtain ⟨ms, rfl, -, hp⟩ := h
  obtain ⟨js, hcontracts, hjs⟩ := hp.contracts
  exact (Explains.inField (by decide) hcontracts (.forItems hjs fun _ _ hc =>
    (Contract.explains_validate hc).bind fun _ _ => .ok _)).bind fun _ _ => .ok _

lemma explains_checkInput {defs scope : Option (List Bytes)} {i : Input}
    (h : i.DenotedBy config j) : j.Explains (Source.checkInput defs scope i) := by
  obtain ⟨ms, rfl, htag, hi⟩ := h
  cases i with
  | normal i =>
    cases defs with
    | some defs => exact NormalInput.explains_validate ⟨ms, rfl, htag, hi⟩
    | none => exact .ok ()
  | var name cs =>
    obtain ⟨v, hget, -⟩ := hi.1
    cases scope with
    | some scope => exact .inField (by decide) hget explains_checkVisible
    | none => exact .ok ()
  | constant | label | self => exact .ok ()

/-! ### Roles -/

namespace Role

lemma explains_ofJson (r : Role) (j : Json) : j.Explains (r.ofJson config j) := by
  cases r with
  | predicate => exact Predicate.explains_ofJson j
  | contract => exact Contract.explains_ofJson j
  | proposition => exact Proposition.explains_ofJson j
  | call => exact Call.explains_ofJson j
  | input => exact Input.explains_ofJson j
  | constant => exact Constant.explains_ofJson j
  | connective => exact Explains.asSymbol

lemma explains_check {r : Role} {x : r.Value} (h : r.ofJson config j = .ok x) :
    j.Explains (r.check x) := by
  cases r with
  | predicate =>
    exact (Predicate.explains_validate (Predicate.ofJson_eq_ok.mp h).2).bind fun _ _ => .ok ()
  | contract =>
    exact (Contract.explains_validate (Contract.ofJson_eq_ok.mp h).2).bind fun _ _ => .ok ()
  | proposition defs scope =>
    cases defs with
    | none => exact .ok ()
    | some defs => exact Proposition.explains_validate (Proposition.ofJson_eq_ok.mp h)
  | input => exact explains_checkInput (Input.ofJson_eq_ok.mp h)
  | call | constant | connective => exact .ok ()

/-- A value explains why it denotes nothing in a role, or nothing that is valid there. -/
lemma explains_denoteJson (r : Role) (j : Json) : j.Explains (r.denoteJson config j) :=
  (r.explains_ofJson j).bind fun x hx => (explains_check hx).bind fun _ _ => .ok x

end Role

end Clausal
