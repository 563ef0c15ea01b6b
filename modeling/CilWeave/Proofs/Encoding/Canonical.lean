import CilWeave.Proofs.Encoding.Acceptance

/-
A compacted body is a fixed point of compaction.

Compaction forgets how a body was laid out. Two bodies with the same opcodes and operands under
the same handles (`MethodBody.SpelledAlike`) get the same layout, and from then on the same
branches are shortened (`MethodBody.SpelledAlike.shortenBranches`), so that both end with the same
instructions at the same offsets. The expanded form of a compacted body is spelled as the one the
body was made of, and nothing touches the slots that are no longer part of the code
(`InstructionList.InPlace`), so compacting it once more gives the same body
(`MethodBody.compact_compact`).
-/

namespace CilWeave

/-! ## Changing instructions and nothing else -/

namespace InstructionList

variable {l l' l'' : InstructionList}

theorem getElem?_of_get? {id : InstrId} {i : Instruction} (h : l.get? id = some i) :
    l.slots[id.slot]? = some ⟨i, .attached⟩ := by
  simp only [get?] at h
  split at h
  · rename_i slot hslot
    split at h
    · rename_i hplace
      cases h
      rw [hslot, ← hplace]
    · cases h
  · cases h

/-- The code is the same up to the instructions that are part of it. -/
structure InPlace (l l' : InstructionList) : Prop where
  order : l'.order = l.order
  kept : ∀ n : Nat, (∀ id ∈ l.ids, id.slot ≠ n) → l'.slots[n]? = l.slots[n]?

namespace InPlace

theorem refl (l : InstructionList) : InPlace l l := ⟨rfl, fun _ _ => rfl⟩

theorem ids_eq (h : InPlace l l') : l'.ids = l.ids := congrArg Array.toList h.order

theorem symm (h : InPlace l l') : InPlace l' l := by
  refine ⟨h.order.symm, ?_⟩
  intro n hn
  exact (h.kept n fun id hid => hn id (h.ids_eq ▸ hid)).symm

theorem trans (h : InPlace l l') (h' : InPlace l' l'') : InPlace l l'' := by
  refine ⟨h'.order.trans h.order, ?_⟩
  intro n hn
  rw [h'.kept n fun id hid => hn id (h.ids_eq ▸ hid)]
  exact h.kept n hn

theorem modify (l : InstructionList) (id : InstrId) (f : Instruction → Instruction) :
    InPlace l (l.modify id f) := by
  by_cases hid : l.contains id = true
  · refine ⟨by simp only [InstructionList.modify, if_pos hid], ?_⟩
    intro n hn
    have hne : id.slot ≠ n := hn id (mem_ids.mpr hid)
    simp only [InstructionList.modify, if_pos hid, Array.getElem?_modify, if_neg hne]
  · simp only [InstructionList.modify, if_neg hid]
    exact refl l

theorem eq (h : InPlace l l') (hget : ∀ id, l'.get? id = l.get? id) : l' = l := by
  refine eq_of_slots_of_order (Array.ext_getElem? fun n => ?_) h.order
  by_cases hn : ∃ id ∈ l.ids, id.slot = n
  · obtain ⟨id, hid, rfl⟩ := hn
    obtain ⟨i, hi⟩ := get?_of_mem hid
    rw [getElem?_of_get? hi, getElem?_of_get? ((hget id).trans hi)]
  · exact h.kept n fun id hid heq => hn ⟨id, hid, heq⟩

end InPlace

theorem modify_congr {id : InstrId} {f g : Instruction → Instruction}
    (h : ∀ i, l.get? id = some i → f i = g i) : l.modify id f = l.modify id g := by
  refine ((InPlace.modify l id g).symm.trans (.modify l id f)).eq fun x => ?_
  rw [get?_modify, get?_modify]
  split
  · rename_i hx
    subst hx
    cases hi : l.get? x with
    | none => rfl
    | some i => rw [Option.map_some, Option.map_some, h i hi]
  · rfl

end InstructionList

namespace MethodBody

variable {b b' b'' s t t' : MethodBody} {refs : ReferenceTable} {returnType : TypeSig}

theorem modifyAt_congr {id : InstrId} {f g : Instruction → Instruction}
    (h : ∀ i, b.code.get? id = some i → f i = g i) : b.modifyAt id f = b.modifyAt id g := by
  simp only [modifyAt, InstructionList.modify_congr h]

/-- The body is the same up to the instructions of its code, and the size of it. -/
structure InPlace (b b' : MethodBody) : Prop where
  code : b.code.InPlace b'.code
  locals : b'.locals = b.locals
  handlers : b'.handlers = b.handlers
  initLocals : b'.initLocals = b.initLocals
  maxStack : b'.maxStack = b.maxStack

namespace InPlace

theorem refl (b : MethodBody) : InPlace b b := ⟨.refl b.code, rfl, rfl, rfl, rfl⟩

theorem trans (h : InPlace b b') (h' : InPlace b' b'') : InPlace b b'' :=
  ⟨h.code.trans h'.code, h'.locals.trans h.locals, h'.handlers.trans h.handlers,
    h'.initLocals.trans h.initLocals, h'.maxStack.trans h.maxStack⟩

theorem modifyAt (b : MethodBody) (id : InstrId) (f : Instruction → Instruction) :
    InPlace b (b.modifyAt id f) := ⟨.modify b.code id f, rfl, rfl, rfl, rfl⟩

theorem foldl_modifyAt (f : Instruction → Instruction) : ∀ (ids : List InstrId) (b : MethodBody),
    InPlace b (ids.foldl (fun b id => b.modifyAt id f) b)
  | [], b => refl b
  | id :: rest, b => (modifyAt b id f).trans (foldl_modifyAt f rest (b.modifyAt id f))

theorem expandEach : ∀ {ids : List InstrId} {b s : MethodBody},
    expandEach ids b = .ok () s → InPlace b s
  | [], b, _, h => by cases h; exact refl b
  | id :: rest, b, s, h => by
    rw [MethodBody.expandEach] at h
    split at h
    · exact expandEach h
    · split at h
      · cases h
      · exact (modifyAt b id _).trans (expandEach h)

theorem expand (h : expand b = .ok () s) : InPlace b s := by
  rw [MethodBody.expand] at h
  split at h
  · cases h
  · rename_i heach
    split at h
    · cases h
    · cases h
      exact expandEach heach

theorem layOutFrom : ∀ {ids : List InstrId} {start n : UInt32} {b t : MethodBody},
    layOutFrom ids start b = .ok n t → InPlace b t
  | [], _, _, b, _, h => by cases h; exact ⟨.refl b.code, rfl, rfl, rfl, rfl⟩
  | id :: rest, start, n, b, t, h => by
    rw [MethodBody.layOutFrom] at h
    split at h
    · exact layOutFrom h
    · simp only at h
      split at h
      · exact (modifyAt b id _).trans (layOutFrom h)
      · cases h

theorem shortenBranches : ∀ {rounds : Nat} {b t : MethodBody},
    shortenBranches rounds b = .ok () t → InPlace b t
  | 0, b, t, h => by
    rw [MethodBody.shortenBranches] at h
    split at h
    · cases h
    · rename_i n s hlay
      cases h
      exact layOutFrom hlay
  | rounds + 1, b, t, h => by
    rw [MethodBody.shortenBranches] at h
    split at h
    · cases h
    · rename_i n s hlay
      have hplace : InPlace b s := layOutFrom hlay
      split at h
      · cases h
        exact hplace
      · exact hplace.trans ((foldl_modifyAt shortened _ s).trans (shortenBranches h))

end InPlace

/-! ## One layout for bodies that are spelled alike -/

namespace SpelledAlike

theorem symm (h : SpelledAlike b' b) : SpelledAlike b b' := by
  refine ⟨h.ids.symm, ?_⟩
  intro id i' i hi' hi
  obtain ⟨hop, hoperand⟩ := h.same id i i' hi hi'
  exact ⟨hop.symm, hoperand.symm⟩

theorem trans (h' : SpelledAlike b'' b') (h : SpelledAlike b' b) : SpelledAlike b'' b := by
  refine ⟨h'.ids.trans h.ids, ?_⟩
  intro id i i'' hi hi''
  obtain ⟨i', hi'⟩ := InstructionList.get?_of_mem (h.ids ▸ InstructionList.mem_ids_of_get? hi)
  obtain ⟨hop, hoperand⟩ := h.same id i i' hi hi'
  obtain ⟨hop', hoperand'⟩ := h'.same id i' i'' hi' hi''
  exact ⟨hop'.trans hop, hoperand'.trans hoperand⟩

end SpelledAlike

theorem size_congr {i i' : Instruction} (hop : i'.op = i.op) (hoperand : i'.operand = i.operand) :
    i'.size = i.size := by
  simp only [Instruction.size, hop, hoperand]

theorem SpelledAlike.sizeOf_eq (h : SpelledAlike b' b) (id : InstrId) :
    b'.code.sizeOf id = b.code.sizeOf id := by
  by_cases hid : id ∈ b.code.ids
  · obtain ⟨i, hi⟩ := InstructionList.get?_of_mem hid
    obtain ⟨i', hi'⟩ := InstructionList.get?_of_mem (h.ids ▸ hid)
    obtain ⟨hop, hoperand⟩ := h.same id i i' hi hi'
    rw [InstructionList.sizeOf_eq hi, InstructionList.sizeOf_eq hi', size_congr hop hoperand]
  · have hid' : id ∉ b'.code.ids := h.ids ▸ hid
    simp only [InstructionList.sizeOf, InstructionList.get?_eq_none hid,
      InstructionList.get?_eq_none hid']

/-- Bodies with the same instructions at the same offsets. -/
structure LaidAlike (b' b : MethodBody) : Prop where
  ids : b'.code.ids = b.code.ids
  get? : ∀ id, b'.code.get? id = b.code.get? id
  codeSize : b'.codeSize = b.codeSize

theorem SpelledAlike.laidAlike (h : SpelledAlike b' b) (hb : b.LaidOut) (hb' : b'.LaidOut) :
    LaidAlike b' b := by
  have hspan : ∀ ids, b'.code.span ids = b.code.span ids :=
    InstructionList.span_congr h.sizeOf_eq
  refine ⟨h.ids, fun id => ?_, UInt32.toNat_inj.mp ?_⟩
  · by_cases hid : id ∈ b.code.ids
    · obtain ⟨i, hi⟩ := InstructionList.get?_of_mem hid
      obtain ⟨i', hi'⟩ := InstructionList.get?_of_mem (h.ids ▸ hid)
      obtain ⟨hop, hoperand⟩ := h.same id i i' hi hi'
      have hbefore : b'.code.before id = b.code.before id := by
        simp only [InstructionList.before, h.ids]
      have hoffset : i'.offset = i.offset := by
        apply UInt32.toNat_inj.mp
        rw [hb'.offset id i' hi', hb.offset id i hi, hspan, hbefore]
      rw [hi, hi']
      obtain ⟨op, operand, offset⟩ := i
      obtain ⟨op', operand', offset'⟩ := i'
      simp_all only
    · rw [InstructionList.get?_eq_none hid, InstructionList.get?_eq_none (h.ids ▸ hid)]
  · rw [hb'.codeSize, hb.codeSize, hspan, h.ids]

theorem spelledAlike_of_layOut {n : UInt32} (h : layOut b = .ok n t) : SpelledAlike t b := by
  obtain ⟨-, offset, hmap⟩ := layOut_eq_ok h
  refine ⟨hmap.ids, ?_⟩
  intro id i i' hi hi'
  rw [hmap.get?_of hi] at hi'
  cases hi'
  exact ⟨rfl, rfl⟩

theorem SpelledAlike.layOut {n : UInt32} (h : SpelledAlike b' b) (ht : layOut b = .ok n t) :
    ∃ n' t', MethodBody.layOut b' = .ok n' t' ∧ LaidAlike t' t := by
  have hroom : b'.code.span b'.code.ids < UInt32.size := by
    rw [InstructionList.span_congr h.sizeOf_eq, h.ids]
    exact exists_layOut_iff.mp ⟨n, t, ht⟩
  obtain ⟨n', t', ht'⟩ := exists_layOut_iff.mpr hroom
  have hsame : SpelledAlike t' t :=
    (spelledAlike_of_layOut ht').trans (h.trans (spelledAlike_of_layOut ht).symm)
  exact ⟨n', t', ht', hsame.laidAlike (layOut_eq_ok ht).1 (layOut_eq_ok ht').1⟩

/-! ## The same branches are shortened -/

namespace LaidAlike

theorem entries_eq (h : LaidAlike b' b) : b'.code.entries = b.code.entries := by
  unfold InstructionList.entries
  rw [h.ids]
  exact List.filterMap_congr fun id _ => by rw [h.get?]

theorem shrinkable_eq (h : LaidAlike b' b) : b'.shrinkable = b.shrinkable := by
  have hone : ∀ i, b'.isShrinkable i = b.isShrinkable i := fun i => by
    simp only [isShrinkable, h.get?]
  simp only [shrinkable, h.entries_eq, hone]

theorem spelledAlike_shortenAll (h : LaidAlike b' b) :
    SpelledAlike b'.shortenAll b.shortenAll := by
  have hmap := mapped_shortenAll b
  have hmap' := mapped_shortenAll b'
  rw [h.shrinkable_eq] at hmap'
  refine ⟨by rw [hmap'.ids, hmap.ids, h.ids], ?_⟩
  intro id i i' hi hi'
  rw [hmap'.get?, h.get?, ← hmap.get?, hi] at hi'
  cases hi'
  exact ⟨rfl, rfl⟩

end LaidAlike

/-- The shortening of branches does not look at the offsets there were before. -/
theorem SpelledAlike.shortenBranches : ∀ {rounds : Nat} {b b' t : MethodBody}, SpelledAlike b' b →
    shortenBranches rounds b = .ok () t →
    ∃ t', MethodBody.shortenBranches rounds b' = .ok () t' ∧ LaidAlike t' t
  | 0, b, b', t, h, ht => by
    rw [MethodBody.shortenBranches] at ht ⊢
    split at ht
    · cases ht
    · rename_i hlay
      cases ht
      obtain ⟨n', t', hlay', hsame⟩ := h.layOut hlay
      rw [hlay']
      exact ⟨t', rfl, hsame⟩
  | rounds + 1, b, b', t, h, ht => by
    rw [MethodBody.shortenBranches] at ht ⊢
    split at ht
    · cases ht
    · rename_i n s hlay
      obtain ⟨n', s', hlay', hsame⟩ := h.layOut hlay
      have hshort := hsame.spelledAlike_shortenAll
      unfold shortenAll at hshort
      rw [hlay']
      simp only
      rw [hsame.shrinkable_eq] at hshort ⊢
      split at ht
      · cases ht
        exact ⟨s', rfl, hsame⟩
      · exact shortenBranches hshort ht

/-! ## Compacting bodies that expand alike -/

theorem compacted_congr {i i' : Instruction} (hop : i'.op = i.op)
    (hoperand : i'.operand = i.operand) :
    i'.compacted.op = i.compacted.op ∧ i'.compacted.operand = i.compacted.operand := by
  have hform : i'.compactedForm? = i.compactedForm? := by
    simp only [Instruction.compactedForm?, hop, hoperand]
  simp only [Instruction.compacted, hform]
  cases i.compactedForm? with
  | none => exact ⟨hop, hoperand⟩
  | some form => exact ⟨rfl, rfl⟩

theorem SpelledAlike.compactAll (h : SpelledAlike b' b) :
    SpelledAlike b'.compactAll b.compactAll := by
  have hmap := mapped_compactAll b
  have hmap' := mapped_compactAll b'
  refine ⟨by rw [hmap'.ids, hmap.ids, h.ids], ?_⟩
  intro id i i' hi hi'
  obtain ⟨j, hj, rfl⟩ := hmap.of_get? hi
  obtain ⟨j', hj', rfl⟩ := hmap'.of_get? hi'
  obtain ⟨hop, hoperand⟩ := h.same id j j' hj hj'
  exact compacted_congr hop hoperand

/-- A compaction changes nothing but the instructions and what is derived from them. -/
theorem InPlace.compact (h : compact refs returnType b = .ok () b') :
    InPlace b { b' with maxStack := b.maxStack } := by
  obtain ⟨s, hs⟩ := exists_expand_of_compact h
  rw [compact_of_expand hs] at h
  split at h
  · cases h
  · rename_i t hshorten
    split at h
    · cases h
    · cases h
      obtain ⟨hcode, hlocals, hhandlers, hinit, -⟩ :=
        ((InPlace.expand hs).trans (InPlace.foldl_modifyAt _ _ s)).trans
          (InPlace.shortenBranches hshorten)
      exact ⟨hcode, hlocals, hhandlers, hinit, rfl⟩

/-- To compact a compacted body changes nothing at all. -/
theorem compact_compact (h : compact refs returnType b = .ok () b') :
    compact refs returnType b' = .ok () b' := by
  obtain ⟨hverified, hsame⟩ := compact_eq_ok h
  obtain ⟨s, s', hs, hs', -⟩ := expand_of_compact h
  have hexpanded : SpelledAlike s' s := hsame.spelledAlike (expand_eq_ok hs).1 (expand_eq_ok hs').1
  rw [compact_of_expand hs] at h
  split at h
  · cases h
  · rename_i t hshorten
    split at h
    · cases h
    · rename_i m hdepth
      cases h
      obtain ⟨t', hshorten', -, hget, hsize⟩ := hexpanded.compactAll.shortenBranches hshorten
      -- What is not code came all the way from the compacted body.
      have hkept : InPlace { t with maxStack := m } t' :=
        ((InPlace.expand hs').trans (InPlace.foldl_modifyAt _ _ s')).trans
          (InPlace.shortenBranches hshorten')
      have heq : t' = { t with maxStack := m } := by
        have hcode : t'.code = t.code := hkept.code.eq hget
        obtain ⟨-, hlocals, hhandlers, hinit, hmax⟩ := hkept
        cases t'
        simp_all only
      rw [compact_of_expand hs', hshorten', heq]
      simp only [hverified.maxStack]

end MethodBody

end CilWeave
