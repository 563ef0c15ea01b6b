import CilWeave.Proofs.Pass.FieldAccess.Building
import CilWeave.Proofs.Encoding.Effects
import CilWeave.Proofs.Rewrite.Faults

/-
Which instructions have access to tracked fields, and what the rule makes of one.

A field is tracked by its name and by the name of the type it is declared in
(`FieldRouting.tracks_iff`). While a pass runs, methods are imported and no fields
(`ReferenceTable.AddsMethods`), so an instruction has access to a tracked field now if it had at
the start (`FieldRouting.applies_addsMethods`). Loads and stores are always replaced, addresses
may be declined (`FieldRouting.declined_is_address`), and nothing that is put in has access to
a tracked field itself (`FieldRouting.Builds.not_applies`).
-/

namespace CilWeave

/-! ## Tables that only methods are added to -/

/-- The rows of a table are still there, and all further rows hold methods. -/
structure ReferenceTable.AddsMethods (refs later : ReferenceTable) : Prop where
  grows : refs.GrowsTo later
  added : ∀ (n : Nat) (member : MemberRef), later.entries[n]? = some member →
    refs.entries[n]? = some member ∨ ∃ method, member = .method method

namespace ReferenceTable.AddsMethods

variable {refs later last : ReferenceTable} {t : Token} {field : FieldRef}

theorem refl (refs : ReferenceTable) : AddsMethods refs refs :=
  ⟨.refl refs, fun _ _ h => .inl h⟩

theorem trans (h : AddsMethods refs later) (h' : AddsMethods later last) :
    AddsMethods refs last := by
  refine ⟨h.grows.trans h'.grows, ?_⟩
  intro n member hn
  rcases h'.added n member hn with hn | hmethod
  · exact h.added n member hn
  · exact .inr hmethod

theorem intern (refs : ReferenceTable) (method : MethodRef) :
    AddsMethods refs (refs.intern (.method method)).2 := by
  refine ⟨growsTo_intern refs (.method method), ?_⟩
  intro n member hn
  simp only [ReferenceTable.intern] at hn
  split at hn
  · exact .inl hn
  · rw [Array.getElem?_push] at hn
    split at hn
    · cases hn
      exact .inr ⟨method, rfl⟩
    · exact .inl hn

theorem field_iff (h : AddsMethods refs later) : later.field t = .ok field ↔
    refs.field t = .ok field := by
  refine ⟨fun hf => ?_, h.grows.field_eq_ok⟩
  obtain ⟨htable, n, hindex, hn⟩ := get_iff.mp (ReferenceTable.field_iff.mp hf)
  rcases h.added n (.field field) hn with hrow | ⟨method, heq⟩
  · exact ReferenceTable.field_iff.mpr (get_iff.mpr ⟨htable, n, hindex, hrow⟩)
  · cases heq

end ReferenceTable.AddsMethods

namespace FieldRouting

variable {r : FieldRouting} {refs later : ReferenceTable} {i i' : Instruction}

/-! ## Tracked fields -/

/-- The field has the name of a field of the tracked type that is not private, not static and
not left out of what is saved. -/
def Tracks (f : FieldAccess) (m : Module) (field : FieldRef) : Prop :=
  field.declaringType.fullName = f.trackedType ∧ ∃ type t definition,
    m.findType? f.trackedType = some type ∧ t ∈ type.fields ∧
    m.fieldDef? t = some definition ∧ definition.isPrivate = false ∧
    definition.isStatic = false ∧ definition.isNotSerialized = false ∧
    definition.name = field.name

/-- Whether the opcode is one of those that have access to a field of an object. -/
def isAccess (op : OpCode) : Bool := op == .ldfld || op == .stfld || op == .ldflda

theorem tracks_iff {f : FieldAccess} {m : Module} {helpers : Resolver} {field : FieldRef}
    (h : ofModule f m helpers = .ok r) : r.tracks field = true ↔ Tracks f m field := by
  simp only [ofModule] at h
  split at h
  · cases h
  · rename_i type htype
    cases haccessors : Accessors.ofType f m type helpers with
    | error e => rw [haccessors] at h; cases h
    | ok accessors =>
      rw [haccessors] at h
      cases h
      simp only [tracks, Tracks, htype, Bool.and_eq_true, beq_iff_eq, List.contains_iff_mem]
      refine and_congr_right fun _ => ?_
      simp only [List.mem_map, List.mem_filter, List.mem_filterMap, Array.mem_toList_iff,
        isTracked, Bool.and_eq_true, Bool.not_eq_true']
      constructor
      · rintro ⟨definition, ⟨⟨t, ht, hdef⟩, ⟨hprivate, hstatic⟩, hserialized⟩, hname⟩
        exact ⟨type, t, definition, rfl, ht, hdef, hprivate, hstatic, hserialized, hname⟩
      · rintro ⟨found, t, definition, hfound, ht, hdef, hprivate, hstatic, hserialized, hname⟩
        cases hfound
        exact ⟨definition, ⟨⟨t, ht, hdef⟩, ⟨hprivate, hstatic⟩, hserialized⟩, hname⟩

theorem applies_iff : r.applies refs i = true ↔ isAccess i.op = true ∧
    ∃ t field, i.operand = .token t ∧ refs.field t = .ok field ∧ r.tracks field = true := by
  simp only [applies, Bool.and_eq_true]
  refine and_congr_right fun _ => ?_
  constructor
  · intro h
    split at h
    · rename_i t ht
      split at h
      · rename_i field hfield
        exact ⟨t, field, Instruction.token?_eq_some.mp ht, hfield, h⟩
      · cases h
    · cases h
  · rintro ⟨t, field, ht, hfield, htracks⟩
    rw [Instruction.token?_eq_some.mpr ht]
    simp only [hfield, htracks]

theorem applies_eq_false (h : isAccess i.op = false) : r.applies refs i = false := by
  refine Bool.eq_false_iff.mpr fun happlies => ?_
  rw [(applies_iff.mp happlies).1] at h
  cases h

/-- An import of methods changes no access to a field. -/
theorem applies_addsMethods (h : refs.AddsMethods later) (i : Instruction) :
    r.applies later i = r.applies refs i := by
  rw [Bool.eq_iff_iff, applies_iff, applies_iff]
  simp only [h.field_iff]

/-! ## One form and the other -/

theorem namesMember_of_isAccess {op : OpCode} (h : isAccess op = true) :
    op.namesMember = true := by
  simp only [isAccess, Bool.or_eq_true, beq_iff_eq] at h
  rcases h with (rfl | rfl) | rfl <;> rfl

theorem applies_expanded (r : FieldRouting) (refs : ReferenceTable) (i : Instruction) :
    r.applies refs i.expanded = r.applies refs i := by
  cases hform : i.expandedForm? with
  | none => rw [Instruction.expanded_of_none hform]
  | some form =>
    obtain ⟨hop, hop'⟩ := Instruction.namesMember_of_expandedForm? hform
    have hnot : ∀ {j : Instruction}, j.op.namesMember = false → r.applies refs j = false := by
      intro j hj
      refine applies_eq_false (Bool.eq_false_iff.mpr fun haccess => ?_)
      rw [namesMember_of_isAccess haccess] at hj
      cases hj
    rw [hnot hop', Instruction.expanded_of_some hform]
    exact hnot hop

theorem applies_saysSame (h : i'.SaysSame i) : r.applies refs i' = r.applies refs i := by
  rw [← r.applies_expanded refs i', ← r.applies_expanded refs i]
  simp only [applies, Instruction.token?, h.1, h.2]

theorem op_of_applies (h : i'.SaysSame i) (hi : isAccess i.op = true) :
    i'.op = i.op ∧ i'.operand = i.operand := h.op_eq (namesMember_of_isAccess hi)

/-! ## What the rule builds -/

/-- Only methods are imported. -/
def AddsMethods (s s' : Supplies Unit) : Prop := s.references.AddsMethods s'.references

theorem provided_addsMethods : Provided AddsMethods where
  refl s := ReferenceTable.AddsMethods.refl s.references
  trans := ReferenceTable.AddsMethods.trans
  scratchLocal type s := by
    cases h : Supplies.scratchLocal type s with
    | error e s' =>
      obtain ⟨-, rfl⟩ := Supplies.scratchLocal_eq_error h
      rw [Edit.after_error h]
      exact ReferenceTable.AddsMethods.refl s'.references
    | ok index s' =>
      rw [Edit.after_ok h]
      rcases Supplies.scratchLocal_eq_ok h with ⟨rfl, -⟩ | ⟨rfl, -⟩
      · exact ReferenceTable.AddsMethods.refl s'.references
      · exact ReferenceTable.AddsMethods.refl s.references
  importMethod method s := ReferenceTable.AddsMethods.intern s.references method

theorem confined_scratchLocal (type : TypeSig) :
    Edit.Confined (Supplies.scratchLocal type : Edit (Supplies Unit) UInt16) := by
  intro s e s' h
  obtain ⟨rfl, -⟩ := Supplies.scratchLocal_eq_error h
  rfl

theorem confined_callOf (accessor : OpCode × MethodRef) : Edit.Confined (callOf accessor) := by
  refine Edit.Confined.bind ?_ fun _ => Edit.confined_pure _
  intro s e s' h
  cases h

theorem confined_replacement (r : FieldRouting) (body : MethodBody) (site : InstrId) (op : OpCode)
    (field : FieldRef) : Edit.Confined (r.replacement body site op field) := by
  have hload : Edit.Confined (r.load field) :=
    (confined_callOf _).bind fun _ => Edit.confined_pure _
  have hstore : Edit.Confined (r.store field) :=
    (confined_scratchLocal _).bind fun _ => (confined_callOf _).bind fun _ => Edit.confined_pure _
  have haddress : Edit.Confined (r.address field) :=
    (confined_scratchLocal _).bind fun _ => (confined_callOf _).bind fun _ =>
      (confined_callOf _).bind fun _ => Edit.confined_pure _
  intro s e s' h
  simp only [FieldRouting.replacement] at h
  split at h
  · exact hload.map some s e s' h
  · exact hstore.map some s e s' h
  · split at h
    · exact haddress.map some s e s' h
    · cases h
  · cases h

theorem confined_rule (r : FieldRouting) : r.rule.Confined := by
  intro body site i s e s' hi happlies h
  obtain ⟨-, t, field, ht, hfield, -⟩ := applies_iff.mp (show r.applies s.references i = true from
    happlies)
  simp only [FieldRouting.rule, MethodBody.instruction, hi, Instruction.token?_eq_some.mpr ht,
    hfield] at h
  exact r.confined_replacement body site i.op field s e s' h

/-- Only the address of a field may be declined. -/
theorem declined_is_address {body : MethodBody} {site : InstrId} {s s' : Supplies Unit}
    (hi : body.code.get? site = some i) (happlies : r.applies s.references i = true)
    (h : r.rule.build body site s = .ok none s') : i.op = .ldflda := by
  obtain ⟨haccess, t, field, ht, hfield, -⟩ := applies_iff.mp happlies
  simp only [FieldRouting.rule, MethodBody.instruction, hi, Instruction.token?_eq_some.mpr ht,
    hfield] at h
  simp only [isAccess, Bool.or_eq_true, beq_iff_eq] at haccess
  rcases haccess with (hop | hop) | hop
  · rw [hop] at h
    obtain ⟨replacement, -, heq⟩ := Edit.map_eq_ok h
    cases heq
  · rw [hop] at h
    obtain ⟨replacement, -, heq⟩ := Edit.map_eq_ok h
    cases heq
  · exact hop

/-- The instruction has no access to a field, and goes on to the next one. -/
def IsPlain (i : Instruction) : Prop := isAccess i.op = false ∧ i.op.flow = .sequential ∨
  i.op.isCall = true

theorem IsPlain.isAccess_eq (h : IsPlain i) : isAccess i.op = false := by
  rcases h with ⟨haccess, -⟩ | hcall
  · exact haccess
  · rcases OpCode.of_isCall hcall with hop | hop <;> rw [hop] <;> rfl

/-- What takes the place of an access has none itself. -/
theorem Builds.isPlain {body : MethodBody} {site : InstrId} {op : OpCode} {field : FieldRef}
    {s s' : Supplies Unit} {replacement : Replacement}
    (h : r.Builds body site op field s s' replacement) :
    ∀ j ∈ replacement.sequence ++ replacement.trailer, IsPlain j := by
  have hget : ∀ {s s' : Supplies Unit} {j : Instruction},
      callOf (r.accessors.getter field.fieldType) s = .ok j s' → IsPlain j := by
    intro s s' j hcall
    refine .inr ?_
    rw [(callOf_eq_ok hcall).1]
    exact Accessors.isCall_choose _ _ _
  have hset : ∀ {s s' : Supplies Unit} {j : Instruction},
      callOf (r.accessors.setter field.fieldType) s = .ok j s' → IsPlain j := by
    intro s s' j hcall
    refine .inr ?_
    rw [(callOf_eq_ok hcall).1]
    exact Accessors.isCall_choose _ _ _
  cases h with
  | load _ hcall =>
    simp only [List.append_nil, List.forall_mem_cons, List.not_mem_nil, false_implies,
      implies_true, and_true]
    exact ⟨.inl ⟨rfl, rfl⟩, hget hcall⟩
  | store _ _ hcall =>
    simp only [List.append_nil, List.forall_mem_cons, List.not_mem_nil, false_implies,
      implies_true, and_true]
    exact ⟨.inl ⟨rfl, rfl⟩, .inl ⟨rfl, rfl⟩, .inl ⟨rfl, rfl⟩, hset hcall⟩
  | address _ _ _ hcall hcall' =>
    simp only [List.cons_append, List.nil_append, List.forall_mem_cons, List.not_mem_nil,
      false_implies, implies_true, and_true]
    exact ⟨.inl ⟨rfl, rfl⟩, .inl ⟨rfl, rfl⟩, hget hcall, .inl ⟨rfl, rfl⟩, .inl ⟨rfl, rfl⟩,
      .inl ⟨rfl, rfl⟩, .inl ⟨rfl, rfl⟩, hset hcall'⟩

end FieldRouting

end CilWeave
