import CilWeave.Proofs.Encoding.Layout
import CilWeave.Proofs.Encoding.Operation

/-
Expanding, compacting, and expanding again.

Expanding changes the code and nothing else, and no instruction does anything else
afterwards; to expand once more changes nothing at all. A compacted body can be expanded,
and what comes out is what the body it was made of expands to, up to the offsets
(`expand_round_trip`).
-/

namespace CilWeave

namespace MethodBody

variable {b b' s : MethodBody}

/-! ## Expanding -/

theorem modifyAt_eq_self {id : InstrId} {f : Instruction → Instruction}
    (h : ∀ i, b.code.get? id = some i → f i = i) : b.modifyAt id f = b := by
  unfold modifyAt
  rw [InstructionList.modify_eq_self h]

/-- Instructions that fit and are expanded already are left as they are. -/
theorem expandEach_of_expanded : ∀ {ids : List InstrId} {b : MethodBody},
    (∀ id ∈ ids, ∀ i, b.code.get? id = some i →
      i.operand.fits i.op.operandKind = true ∧ i.expanded = i) →
    expandEach ids b = .ok () b
  | [], _, _ => rfl
  | id :: rest, b, h => by
    have ih := expandEach_of_expanded fun x hx => h x (List.mem_cons_of_mem id hx)
    unfold expandEach
    cases hi : b.code.get? id with
    | none => exact ih
    | some i =>
      obtain ⟨hfits, hsame⟩ := h id List.mem_cons_self i hi
      simp only [Instruction.checkOperand_eq_ok.mpr hfits]
      have hkept : b.modifyAt id Instruction.expanded = b := modifyAt_eq_self fun j hj => by
        rw [hi] at hj
        cases hj
        exact hsame
      rw [hkept]
      exact ih

/-- Instructions that fit are expanded. -/
theorem exists_expandEach : ∀ (ids : List InstrId) {b : MethodBody}, b.Fitting →
    ∃ s, expandEach ids b = .ok () s
  | [], b, _ => ⟨b, rfl⟩
  | id :: rest, b, h => by
    unfold expandEach
    cases hi : b.code.get? id with
    | none => exact exists_expandEach rest h
    | some i =>
      simp only [Instruction.checkOperand_eq_ok.mpr (h id i hi)]
      refine exists_expandEach rest ((mapped_modifyAt b id _).fitting h fun x i hfits => ?_)
      split
      · exact Instruction.fits_expanded hfits
      · exact hfits

theorem exists_expand (hfits : b.Fitting)
    (hvalid : ∀ s, Mapped (fun _ i => i.expanded) b s → s.Valid) : ∃ s, expand b = .ok () s := by
  obtain ⟨s, hs⟩ := exists_expandEach b.code.ids hfits
  obtain ⟨hmap, -⟩ := expandEach_eq_ok b.code.nodup_ids hs
  have hmap : Mapped (fun _ i => i.expanded) b s := hmap.congr fun id i hi =>
    if_pos (InstructionList.mem_ids_of_get? hi)
  unfold expand
  rw [hs]
  simp only [validate_eq_ok.mpr (hvalid s hmap)]
  exact ⟨s, rfl⟩

theorem expandEach_keeps : ∀ {ids : List InstrId} {b s : MethodBody},
    expandEach ids b = .ok () s → s = { b with code := s.code }
  | [], _, _, h => by cases h; rfl
  | id :: rest, b, s, h => by
    unfold expandEach at h
    split at h
    · exact expandEach_keeps h
    · split at h
      · cases h
      · have hkept := expandEach_keeps h
        exact hkept

theorem expand_keeps (h : expand b = .ok () s) : s = { b with code := s.code } := by
  unfold expand at h
  split at h
  · cases h
  · rename_i heach
    split at h
    · cases h
    · cases h
      exact expandEach_keeps heach

theorem expand_of_expanded (hcode : ∀ id i, b.code.get? id = some i →
    i.operand.fits i.op.operandKind = true ∧ i.expanded = i) (hvalid : b.Valid) :
    expand b = .ok () b := by
  unfold expand
  rw [expandEach_of_expanded fun id _ => hcode id]
  simp only [validate_eq_ok.mpr hvalid]

theorem expand_expand (h : expand b = .ok () s) : expand s = .ok () s := by
  obtain ⟨hmap, hfits, hvalid⟩ := expand_eq_ok h
  refine expand_of_expanded (fun id i' hi' => ?_) hvalid
  obtain ⟨i, hi, rfl⟩ := hmap.of_get? hi'
  exact ⟨Instruction.fits_expanded (hfits id i hi), i.expanded_expanded⟩

/-! ## Expanding what was compacted -/

/-- The code without its layout: the handles with opcodes and operands. -/
def spelled (b : MethodBody) : List (InstrId × OpCode × Operand) :=
  b.code.entries.map fun (id, i) => (id, i.op, i.operand)

/-- Bodies with the same handles, and the same opcodes and operands under them. -/
structure SpelledAlike (b' b : MethodBody) : Prop where
  ids : b'.code.ids = b.code.ids
  same : ∀ id i i', b.code.get? id = some i → b'.code.get? id = some i' →
    i'.op = i.op ∧ i'.operand = i.operand

theorem SpelledAlike.refl (b : MethodBody) : SpelledAlike b b := by
  refine ⟨rfl, fun id i i' hi hi' => ?_⟩
  rw [hi] at hi'
  cases hi'
  exact ⟨rfl, rfl⟩

theorem SpelledAlike.spelled_eq (h : SpelledAlike b' b) : b'.spelled = b.spelled := by
  have hspelled : ∀ b : MethodBody, b.spelled =
      b.code.ids.filterMap fun id => (b.code.get? id).map fun i => (id, i.op, i.operand) := by
    intro b
    unfold spelled InstructionList.entries
    rw [List.map_filterMap]
    congr 1
    funext id
    cases b.code.get? id <;> rfl
  rw [hspelled, hspelled, h.ids]
  refine List.filterMap_congr fun id hid => ?_
  obtain ⟨i, hi⟩ := InstructionList.get?_of_mem hid
  obtain ⟨i', hi'⟩ := InstructionList.get?_of_mem (h.ids ▸ hid)
  obtain ⟨hop, hoperand⟩ := h.same id i i' hi hi'
  rw [hi, hi', Option.map_some, Option.map_some, hop, hoperand]

theorem SpelledAlike.countP_eq (h : SpelledAlike b' b) {p : Instruction → Bool}
    (hp : ∀ i i' : Instruction, i'.op = i.op → i'.operand = i.operand → p i' = p i) :
    b'.code.instructions.countP p = b.code.instructions.countP p := by
  refine InstructionList.countP_instructions_congr h.ids fun id i i' hi hi' => ?_
  obtain ⟨hop, hoperand⟩ := h.same id i i' hi hi'
  exact hp i i' hop hoperand

theorem SpelledAlike.valid (h : SpelledAlike b' b) (hlocals : b'.locals = b.locals)
    (hhandlers : b'.handlers = b.handlers) (hb : b.Valid) : b'.Valid := by
  have hcontains : ∀ id, b'.code.contains id = b.code.contains id := fun id => by
    rw [Bool.eq_iff_iff, ← InstructionList.mem_ids, ← InstructionList.mem_ids, h.ids]
  have hback : ∀ {id i'}, b'.code.get? id = some i' →
      ∃ i, b.code.get? id = some i ∧ i'.operand = i.operand := by
    intro id i' hi'
    obtain ⟨i, hi⟩ := InstructionList.get?_of_mem (h.ids ▸ InstructionList.mem_ids_of_get? hi')
    exact ⟨i, hi, (h.same id i i' hi hi').2⟩
  refine ⟨?_, ?_, ?_⟩
  · intro id i' hi' t ht
    obtain ⟨i, hi, hoperand⟩ := hback hi'
    rw [hcontains]
    refine hb.targets id i hi t ?_
    unfold Instruction.targets at ht ⊢
    rwa [← hoperand]
  · intro id i' index hi' hop
    obtain ⟨i, hi, hoperand⟩ := hback hi'
    rw [hlocals]
    exact hb.locals id i index hi (hoperand.symm.trans hop)
  · intro handler hmem id hid
    rw [hcontains]
    exact hb.boundaries handler (hhandlers ▸ hmem) id hid

theorem Rephrases.spelledAlike {s' : MethodBody} (h : b'.Rephrases b)
    (hs : Mapped (fun _ i => i.expanded) b s) (hs' : Mapped (fun _ i => i.expanded) b' s') :
    SpelledAlike s' s where
  ids := by rw [hs'.ids, hs.ids, h.ids]
  same id j j' hj hj' := by
    obtain ⟨i, hi, rfl⟩ := hs.of_get? hj
    obtain ⟨i', hi', rfl⟩ := hs'.of_get? hj'
    exact h.same id i i' hi hi'

theorem exists_expand_of_compact {refs : ReferenceTable} {returnType : TypeSig}
    (h : compact refs returnType b = .ok () b') : ∃ s, expand b = .ok () s := by
  unfold compact at h
  split at h
  · cases h
  · exact ⟨_, by assumption⟩

/-- What a compacted body expands to is spelled as what it was made of expands to. -/
theorem expand_of_compact {refs : ReferenceTable} {returnType : TypeSig}
    (h : compact refs returnType b = .ok () b') :
    ∃ s s', expand b = .ok () s ∧ expand b' = .ok () s' ∧ s'.spelled = s.spelled ∧
      s'.locals = s.locals ∧ s'.handlers = s.handlers := by
  obtain ⟨s, hs⟩ := exists_expand_of_compact h
  obtain ⟨hmap, -, hvalid⟩ := expand_eq_ok hs
  obtain ⟨hverified, hsame⟩ := compact_eq_ok h
  have hfits : b'.Fitting := fun id i hi =>
    Instruction.checkOperand_eq_ok.mp (hverified.operands id i hi)
  have hlocals : ∀ {s'}, Mapped (fun _ i => i.expanded) b' s' → s'.locals = s.locals := fun hmap' =>
    hmap'.locals.trans (hsame.locals.trans hmap.locals.symm)
  have hhandlers : ∀ {s'}, Mapped (fun _ i => i.expanded) b' s' → s'.handlers = s.handlers :=
    fun hmap' => hmap'.handlers.trans (hsame.handlers.trans hmap.handlers.symm)
  -- The compacted body expands to a valid one because the other body does.
  obtain ⟨s', hs'⟩ := exists_expand hfits fun s' hmap' =>
    (hsame.spelledAlike hmap hmap').valid (hlocals hmap') (hhandlers hmap') hvalid
  obtain ⟨hmap', -⟩ := expand_eq_ok hs'
  exact ⟨s, s', hs, hs', (hsame.spelledAlike hmap hmap').spelled_eq, hlocals hmap',
    hhandlers hmap'⟩

/-- A body that can be expanded has the same handles, locals and handlers afterwards, every
instruction does what it did and is written without abbreviation, and to expand it once more
changes nothing. A body that can be compacted can be expanded before and after, to the same
code. -/
theorem expand_round_trip (b : MethodBody) :
    (∀ s, expand b = .ok () s →
      s.code.ids = b.code.ids ∧ s.locals = b.locals ∧ s.handlers = b.handlers ∧
      s.initLocals = b.initLocals ∧
      (∀ id i, b.code.get? id = some i → ∃ i' operation, s.code.get? id = some i' ∧
        i.operation? = some operation ∧ i'.operation? = some operation ∧
        i'.op.abbreviates = false) ∧
      expand s = .ok () s) ∧
    ∀ refs returnType b', compact refs returnType b = .ok () b' →
      ∃ s s', expand b = .ok () s ∧ expand b' = .ok () s' ∧ s'.spelled = s.spelled ∧
        s'.locals = s.locals ∧ s'.handlers = s.handlers := by
  refine ⟨fun s hs => ?_, fun refs returnType b' h => expand_of_compact h⟩
  obtain ⟨hmap, hfits, -⟩ := expand_eq_ok hs
  have hinit : s.initLocals = b.initLocals := by rw [expand_keeps hs]
  refine ⟨hmap.ids, hmap.locals, hmap.handlers, hinit, fun id i hi => ?_, expand_expand hs⟩
  have hi' := hfits id i hi
  obtain ⟨operation, hoperation⟩ := Instruction.operation?_isSome hi'
  exact ⟨i.expanded, operation, hmap.get?_of hi, hoperation,
    (Instruction.operation?_expanded hi').trans hoperation,
    Instruction.not_abbreviates_expanded hi'⟩

/-- A body in short and long forms: it counts a local down from minus one, and leaves. -/
def mixed : MethodBody :=
  { MethodBody.empty with
    locals := #[.int32]
    code := (InstructionList.ofList [.of .ldcI4S (.immediate (.int8 (-1))), .of .stlocS (.local 0),
      .of .ldloc (.local 0), .branch .brtrue ⟨5⟩, .branch .brS ⟨2⟩,
      .plain .ret]).toOption.getD .empty }

theorem expand_round_trip_mixed : ∃ s b' s', expand mixed = .ok () s ∧
    compact .empty .void mixed = .ok () b' ∧ expand b' = .ok () s' ∧
    s.code.instructions.map (·.op) = [.ldcI4, .stloc, .ldloc, .brtrue, .br, .ret] ∧
    b'.code.instructions.map (·.op) = [.ldcI4M1, .stloc0, .ldloc0, .brtrueS, .brS, .ret] ∧
    s'.spelled = s.spelled ∧ expand s = .ok () s := by
  obtain ⟨s, hs, hops⟩ : ∃ s, expand mixed = .ok () s ∧
      s.code.instructions.map (·.op) = [.ldcI4, .stloc, .ldloc, .brtrue, .br, .ret] :=
    ⟨_, rfl, rfl⟩
  obtain ⟨b', hb', hshort⟩ : ∃ b', compact .empty .void mixed = .ok () b' ∧
      b'.code.instructions.map (·.op) = [.ldcI4M1, .stloc0, .ldloc0, .brtrueS, .brS, .ret] :=
    ⟨_, rfl, rfl⟩
  obtain ⟨hexpand, hcompact⟩ := expand_round_trip mixed
  obtain ⟨-, -, -, -, -, hagain⟩ := hexpand s hs
  obtain ⟨s₀, s', hs₀, hs', hspelled, -⟩ := hcompact .empty .void b' hb'
  rw [hs] at hs₀
  cases hs₀
  exact ⟨s, b', s', hs, hb', hs', hops, hshort, hspelled, hagain⟩

end MethodBody

end CilWeave
