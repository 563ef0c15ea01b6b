import Mathlib.Data.List.Basic
import CilWeave.Proofs.Encoding.Forms
import CilWeave.Proofs.InstructionList.View

/-
Bodies that differ in the form of their instructions.

`MethodBody.Mapped` is a change of instructions in place: handles, handlers and
locals stay. Every step of the encoding is one, so what it does to a body is known
from what it does to one instruction. `MethodBody.Rephrases` forgets how the
instructions were changed and keeps that they say the same.
-/

namespace CilWeave

namespace MethodBody

variable {b b' b'' : MethodBody}

/-! ## Changing instructions in place -/

/-- `b'` is `b` with the instruction of each handle changed by `f`. -/
structure Mapped (f : InstrId → Instruction → Instruction) (b b' : MethodBody) : Prop where
  ids : b'.code.ids = b.code.ids
  slots : b'.code.slots.size = b.code.slots.size
  locals : b'.locals = b.locals
  handlers : b'.handlers = b.handlers
  get? : ∀ id, b'.code.get? id = (b.code.get? id).map (f id)

namespace Mapped

variable {f g : InstrId → Instruction → Instruction}

theorem refl (b : MethodBody) : Mapped (fun _ i => i) b b :=
  ⟨rfl, rfl, rfl, rfl, fun id => by cases b.code.get? id <;> rfl⟩

theorem instructions_eq {f : Instruction → Instruction} (h : Mapped (fun _ i => f i) b b') :
    b'.code.instructions = b.code.instructions.map f := by
  unfold InstructionList.instructions
  rw [h.ids, List.map_filterMap]
  exact List.filterMap_congr fun id _ => h.get? id

theorem trans (h : Mapped f b b') (h' : Mapped g b' b'') :
    Mapped (fun id i => g id (f id i)) b b'' := by
  refine ⟨h'.ids.trans h.ids, h'.slots.trans h.slots, h'.locals.trans h.locals,
    h'.handlers.trans h.handlers, ?_⟩
  intro id
  rw [h'.get?, h.get?, Option.map_map]
  rfl

theorem congr (h : Mapped f b b')
    (hfg : ∀ id i, b.code.get? id = some i → f id i = g id i) : Mapped g b b' := by
  refine ⟨h.ids, h.slots, h.locals, h.handlers, ?_⟩
  intro id
  rw [h.get?]
  cases hi : b.code.get? id with
  | none => rfl
  | some i => rw [Option.map_some, Option.map_some, hfg id i hi]

theorem contains_eq (h : Mapped f b b') (id : InstrId) :
    b'.code.contains id = b.code.contains id := by
  rw [Bool.eq_iff_iff, ← InstructionList.mem_ids, ← InstructionList.mem_ids, h.ids]

theorem of_get? (h : Mapped f b b') {id : InstrId} {i' : Instruction}
    (hi' : b'.code.get? id = some i') : ∃ i, b.code.get? id = some i ∧ i' = f id i := by
  rw [h.get?] at hi'
  obtain ⟨i, hi, rfl⟩ := Option.map_eq_some_iff.mp hi'
  exact ⟨i, hi, rfl⟩

theorem get?_of (h : Mapped f b b') {id : InstrId} {i : Instruction}
    (hi : b.code.get? id = some i) : b'.code.get? id = some (f id i) := by
  rw [h.get?, hi]; rfl

end Mapped

theorem mapped_modifyAt (b : MethodBody) (id : InstrId) (f : Instruction → Instruction) :
    Mapped (fun x i => if x = id then f i else i) b (b.modifyAt id f) := by
  refine ⟨InstructionList.ids_modify .., InstructionList.slots_modify .., rfl, rfl, ?_⟩
  intro x
  unfold modifyAt
  rw [InstructionList.get?_modify]
  by_cases hx : x = id
  · simp only [if_pos hx]
  · simp only [if_neg hx]
    cases b.code.get? x <;> rfl

/-- To change some instructions and then others is to change all of them. -/
theorem Mapped.cons {f : InstrId → Instruction → Instruction} {id : InstrId}
    {rest : List InstrId} (hid : id ∉ rest)
    (h : Mapped (fun x i => if x = id then f x i else i) b b')
    (h' : Mapped (fun x i => if x ∈ rest then f x i else i) b' b'') :
    Mapped (fun x i => if x ∈ id :: rest then f x i else i) b b'' := by
  refine (h.trans h').congr ?_
  intro x i _
  by_cases hx : x = id
  · subst hx
    simp only [if_true, List.mem_cons, true_or, if_neg hid]
  · simp only [List.mem_cons, hx, false_or, if_false]

theorem mapped_foldl_modifyAt (f : Instruction → Instruction) :
    ∀ {ids : List InstrId} {b : MethodBody}, ids.Nodup →
      Mapped (fun x i => if x ∈ ids then f i else i) b
        (ids.foldl (fun b id => b.modifyAt id f) b)
  | [], b, _ => (Mapped.refl b).congr fun _ _ _ => by simp
  | id :: rest, b, h => by
    obtain ⟨hid, hrest⟩ := List.nodup_cons.mp h
    exact Mapped.cons hid (mapped_modifyAt b id f) (mapped_foldl_modifyAt f hrest)

/-! ## Instructions that fit, and what they refer to -/

/-- Every instruction of the body has an operand that fits its opcode. -/
def Fitting (b : MethodBody) : Prop :=
  ∀ id i, b.code.get? id = some i → i.operand.fits i.op.operandKind = true

/-- Everything a body refers to is there. -/
structure Valid (b : MethodBody) : Prop where
  targets : ∀ id i, b.code.get? id = some i → ∀ t ∈ i.targets, b.code.contains t = true
  locals : ∀ id i index, b.code.get? id = some i → i.operand = .local index →
    index.toNat < b.locals.size
  boundaries : ∀ h ∈ b.handlers, ∀ id ∈ h.boundaries, b.code.contains id = true

theorem firstFault?_eq_none {α β : Type} {fault? : Nat → α → Option β} :
    ∀ {position : Nat} {l : List α}, firstFault? fault? position l = none ↔
      ∀ p a, l[p]? = some a → fault? (position + p) a = none
  | _, [] => by simp [firstFault?]
  | position, a :: rest => by
    have ih := @firstFault?_eq_none _ _ fault? (position + 1) rest
    unfold firstFault?
    cases ha : fault? position a with
    | some fault =>
      refine ⟨nofun, fun h => ?_⟩
      have := h 0 a rfl
      rw [Nat.add_zero, ha] at this
      cases this
    | none =>
      simp only [ih]
      constructor
      · intro h p x hp
        cases p with
        | zero => cases hp; exact ha
        | succ p =>
          have := h p x hp
          rwa [Nat.add_right_comm] at this
      · intro h p x hp
        have := h (p + 1) x hp
        rwa [Nat.add_right_comm]

theorem instructionFault?_eq_none {position : Nat} {i : Instruction} :
    b.instructionFault? position i = none ↔ (∀ t ∈ i.targets, b.code.contains t = true) ∧
      ∀ index, i.operand = .local index → index.toNat < b.locals.size := by
  unfold instructionFault?
  split
  · rename_i htargets
    rw [List.all_eq_true] at htargets
    constructor
    · intro h
      refine ⟨htargets, fun index hop => ?_⟩
      rw [hop] at h
      simp only at h
      split at h
      · assumption
      · cases h
    · rintro ⟨-, hlocal⟩
      split
      · rename_i index hop
        rw [if_pos (hlocal index hop)]
      · rfl
  · rename_i htargets
    refine ⟨nofun, fun h => absurd (List.all_eq_true.mpr h.1) htargets⟩

theorem handlerFault?_eq_none {index : Nat} {h : Handler} :
    b.handlerFault? index h = none ↔ ∀ id ∈ h.boundaries, b.code.contains id = true := by
  unfold handlerFault?
  rw [Option.map_eq_none_iff, List.find?_eq_none]
  simp

theorem validate_eq_ok : b.validate = .ok () ↔ b.Valid := by
  -- Faults are looked for by position, and stated by handle.
  have hcode : firstFault? b.instructionFault? 0 b.code.instructions = none ↔
      ∀ id i, b.code.get? id = some i → (∀ t ∈ i.targets, b.code.contains t = true) ∧
        ∀ index, i.operand = .local index → index.toNat < b.locals.size := by
    rw [firstFault?_eq_none]
    simp only [instructionFault?_eq_none]
    constructor
    · intro h id i hi
      obtain ⟨p, hp⟩ := List.mem_iff_getElem?.mp (InstructionList.mem_ids_of_get? hi)
      exact h p i (InstructionList.getElem?_instructions.mpr ⟨id, hp, hi⟩)
    · intro h p i hp
      obtain ⟨id, -, hi⟩ := InstructionList.getElem?_instructions.mp hp
      exact h id i hi
  have hhandlers : firstFault? b.handlerFault? 0 b.handlers = none ↔
      ∀ h ∈ b.handlers, ∀ id ∈ h.boundaries, b.code.contains id = true := by
    rw [firstFault?_eq_none]
    simp only [handlerFault?_eq_none]
    constructor
    · intro h handler hmem
      obtain ⟨p, hp⟩ := List.mem_iff_getElem?.mp hmem
      exact h p handler hp
    · intro h p handler hp
      exact h handler (List.mem_of_getElem? hp)
  unfold validate
  constructor
  · intro h
    split at h
    · cases h
    · rename_i hcode'
      split at h
      · cases h
      · rename_i hhandlers'
        have hc := hcode.mp hcode'
        exact ⟨fun id i hi => (hc id i hi).1, fun id i index hi => (hc id i hi).2 index,
          hhandlers.mp hhandlers'⟩
  · rintro ⟨htargets, hlocals, hboundaries⟩
    rw [hcode.mpr fun id i hi => ⟨htargets id i hi, fun index => hlocals id i index hi⟩]
    simp only
    rw [hhandlers.mpr hboundaries]

namespace Mapped

variable {f : InstrId → Instruction → Instruction}

theorem fitting (h : Mapped f b b') (hb : b.Fitting)
    (hf : ∀ id i, i.operand.fits i.op.operandKind = true →
      (f id i).operand.fits (f id i).op.operandKind = true) : b'.Fitting := by
  intro id i' hi'
  obtain ⟨i, hi, rfl⟩ := h.of_get? hi'
  exact hf id i (hb id i hi)

theorem valid (h : Mapped f b b') (hb : b.Valid) (htargets : ∀ id i, (f id i).targets = i.targets)
    (hlocal : ∀ id i index, (f id i).operand = .local index → i.operand = .local index) :
    b'.Valid := by
  refine ⟨?_, ?_, ?_⟩
  · intro id i' hi' t ht
    obtain ⟨i, hi, rfl⟩ := h.of_get? hi'
    rw [h.contains_eq]
    exact hb.targets id i hi t (htargets id i ▸ ht)
  · intro id i' index hi' hop
    obtain ⟨i, hi, rfl⟩ := h.of_get? hi'
    rw [h.locals]
    exact hb.locals id i index hi (hlocal id i index hop)
  · intro handler hmem id hid
    rw [h.contains_eq]
    exact hb.boundaries handler (h.handlers ▸ hmem) id hid

end Mapped

/-! ## Bodies that say the same -/

/-- `b'` has the handles, handlers and locals of `b`, and its instructions say the same. -/
structure Rephrases (b' b : MethodBody) : Prop where
  ids : b'.code.ids = b.code.ids
  slots : b'.code.slots.size = b.code.slots.size
  locals : b'.locals = b.locals
  handlers : b'.handlers = b.handlers
  same : ∀ id i i', b.code.get? id = some i → b'.code.get? id = some i' → i'.SaysSame i

namespace Rephrases

theorem trans (h' : b''.Rephrases b') (h : b'.Rephrases b) : b''.Rephrases b := by
  refine ⟨h'.ids.trans h.ids, h'.slots.trans h.slots, h'.locals.trans h.locals,
    h'.handlers.trans h.handlers, ?_⟩
  intro id i i'' hi hi''
  have hin : id ∈ b'.code.ids := h.ids ▸ InstructionList.mem_ids_of_get? hi
  obtain ⟨i', hi'⟩ := InstructionList.get?_of_mem hin
  exact (h'.same id i' i'' hi' hi'').trans (h.same id i i' hi hi')

end Rephrases

theorem Mapped.rephrases {f : InstrId → Instruction → Instruction} (h : Mapped f b b')
    (hf : ∀ id i, (f id i).SaysSame i) : b'.Rephrases b := by
  refine ⟨h.ids, h.slots, h.locals, h.handlers, ?_⟩
  intro id i i' hi hi'
  rw [h.get?_of hi] at hi'
  cases hi'
  exact hf id i

/-! ## Expanding a body -/

theorem expandEach_eq_ok : ∀ {ids : List InstrId} {b b' : MethodBody}, ids.Nodup →
    expandEach ids b = .ok () b' →
    Mapped (fun x i => if x ∈ ids then i.expanded else i) b b' ∧
      ∀ id ∈ ids, ∀ i, b.code.get? id = some i → i.operand.fits i.op.operandKind = true
  | [], b, _, _, h => by
    cases h
    exact ⟨(Mapped.refl b).congr fun _ _ _ => by simp, by simp⟩
  | id :: rest, b, b', hnodup, h => by
    obtain ⟨hid, hrest⟩ := List.nodup_cons.mp hnodup
    unfold expandEach at h
    cases hi : b.code.get? id with
    | none =>
      rw [hi] at h
      obtain ⟨hmap, hfits⟩ := expandEach_eq_ok hrest h
      -- No instruction has the handle, so there is nothing to expand.
      refine ⟨hmap.congr ?_, ?_⟩
      · intro x i hx
        have hne : x ≠ id := by
          rintro rfl
          rw [hi] at hx
          cases hx
        simp only [List.mem_cons, hne, false_or]
      · intro x hx i hxi
        rcases List.mem_cons.mp hx with rfl | hx
        · rw [hi] at hxi; cases hxi
        · exact hfits x hx i hxi
    | some i =>
      rw [hi] at h
      simp only at h
      cases hcheck : i.checkOperand with
      | error e => rw [hcheck] at h; cases h
      | ok u =>
        rw [hcheck] at h
        obtain ⟨hmap, hfits⟩ := expandEach_eq_ok hrest h
        have hone := mapped_modifyAt b id Instruction.expanded
        refine ⟨Mapped.cons hid hone hmap, ?_⟩
        intro x hx j hj
        by_cases hxid : x = id
        · subst hxid
          rw [hi] at hj
          cases hj
          exact Instruction.checkOperand_eq_ok.mp hcheck
        · have hx' : x ∈ rest := (List.mem_cons.mp hx).resolve_left hxid
          refine hfits x hx' j ?_
          rw [hone.get?_of hj, if_neg hxid]

theorem expand_eq_ok (h : expand b = .ok () b') :
    Mapped (fun _ i => i.expanded) b b' ∧ b.Fitting ∧ b'.Valid := by
  unfold expand at h
  cases heach : expandEach b.code.ids b with
  | error e s => rw [heach] at h; cases h
  | ok u s =>
    rw [heach] at h
    simp only at h
    cases hvalid : s.validate with
    | error e => rw [hvalid] at h; cases h
    | ok u =>
      rw [hvalid] at h
      cases h
      obtain ⟨hmap, hfits⟩ := expandEach_eq_ok b.code.nodup_ids heach
      refine ⟨hmap.congr ?_, ?_, validate_eq_ok.mp hvalid⟩
      · intro id i hi
        simp only [InstructionList.mem_ids_of_get? hi, if_true]
      · intro id i hi
        exact hfits id (InstructionList.mem_ids_of_get? hi) i hi

end MethodBody

end CilWeave
