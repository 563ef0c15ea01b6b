import Mathlib.Algebra.Order.BigOperators.Group.List
import Mathlib.Algebra.Order.Group.Nat
import CilWeave.Proofs.Encoding.Canonical

/-
What a compaction makes of a body is known from its expanded form.

An instruction that is expanded and then brought into its smallest form takes no more room
than it took (`Instruction.byteCount_compacted_expanded_le`), so what stands in a compacted body
is the smallest of all instructions with the same expanded form, branches apart, whose reach
depends on the layout. Bodies with the same expanded form are compacted to the same instructions at the same
offsets, whatever forms they began with (`MethodBody.compact_of_spelledAlike`).
-/

namespace CilWeave

/-! ## Sizes of forms -/

namespace Operand

variable {a : Operand}

end Operand

namespace Instruction

variable {i j : Instruction} {op : OpCode} {operand : Operand}

theorem operandKind_compacted_expanded (h : i.op.operandKind = .shortBranch) :
    i.expanded.compacted.op.operandKind = .branch := by
  obtain ⟨long, hlong⟩ := OpCode.longBranch?_of_operandKind h
  have hform : compactedForm? (i.recode long i.operand) = none := by
    obtain ⟨o, a, n⟩ := i
    dsimp only at hlong
    unfold OpCode.longBranch? at hlong
    split at hlong <;> cases hlong <;> rfl
  rw [expanded_of_some (expandedForm?_of_longBranch? hlong)]
  simp only [compacted, hform]
  exact (OpCode.operandKind_of_longBranch? hlong).2

end Instruction

/-! ## The instructions of a compacted body -/

namespace MethodBody

variable {b b' c c' s s' t : MethodBody} {refs : ReferenceTable} {returnType : TypeSig}

theorem shortened_cases (i : Instruction) : (shortened i).op.operandKind = .shortBranch ∨
    ((shortened i).op = i.op ∧ (shortened i).operand = i.operand) := by
  unfold shortened
  split
  · rename_i short hshort
    exact .inl (OpCode.operandKind_of_longBranch? (OpCode.longBranch?_of_shortBranch? hshort)).1
  · exact .inr ⟨rfl, rfl⟩

/-- The shortening of branches leaves opcode and operand of everything else. -/
theorem mapped_shortenBranches : ∀ {rounds : Nat} {b t : MethodBody},
    shortenBranches rounds b = .ok () t → ∃ f, Mapped f b t ∧
      ∀ id i, (f id i).op.operandKind = .shortBranch ∨
        ((f id i).op = i.op ∧ (f id i).operand = i.operand)
  | 0, b, t, h => by
    rw [shortenBranches] at h
    split at h
    · cases h
    · rename_i hlay
      cases h
      obtain ⟨-, offset, hmap⟩ := layOut_eq_ok hlay
      exact ⟨_, hmap, fun _ _ => .inr ⟨rfl, rfl⟩⟩
  | rounds + 1, b, t, h => by
    rw [shortenBranches] at h
    split at h
    · cases h
    · rename_i n laid hlay
      obtain ⟨-, offset, hmap⟩ := layOut_eq_ok hlay
      split at h
      · cases h
        exact ⟨_, hmap, fun _ _ => .inr ⟨rfl, rfl⟩⟩
      · obtain ⟨f, hlater, hf⟩ := mapped_shortenBranches h
        refine ⟨_, (hmap.trans (mapped_shortenAll laid)).trans hlater, fun id i => ?_⟩
        rcases hf id _ with hshort | ⟨hop, hoperand⟩
        · exact .inl hshort
        · rw [hop, hoperand]
          split
          · exact shortened_cases _
          · exact .inr ⟨rfl, rfl⟩

theorem LaidAlike.runsAlike (h : LaidAlike b' b) (hhandlers : b'.handlers = b.handlers)
    (refs : ReferenceTable) (returnType : TypeSig) : RunsAlike b refs b' refs returnType where
  ids := h.ids
  handlers handler := by rw [hhandlers]
  instruction id i hi := ⟨i, (h.get? id).trans hi, rfl, fun _ => Iff.rfl, fun _ he => he⟩

/-- What stands in a compacted body is the smallest form of what stood there, or a short branch. -/
theorem compact_get? (hc : compact refs returnType b = .ok () c) {id : InstrId} {i : Instruction}
    (hi : b.code.get? id = some i) : ∃ i', c.code.get? id = some i' ∧
      (i'.op.operandKind = .shortBranch ∨
        (i'.op = i.expanded.compacted.op ∧ i'.operand = i.expanded.compacted.operand)) := by
  obtain ⟨s, hs⟩ := exists_expand_of_compact hc
  obtain ⟨hmap, -⟩ := expand_eq_ok hs
  rw [compact_of_expand hs] at hc
  split at hc
  · cases hc
  · rename_i t hshorten
    split at hc
    · cases hc
    · cases hc
      obtain ⟨f, hlater, hf⟩ := mapped_shortenBranches hshorten
      have hall := (hmap.trans (mapped_compactAll s)).trans hlater
      exact ⟨_, hall.get?_of hi, hf id _⟩

/-! ## Room in bytes -/

/-- The bytes of the code with every instruction in its smallest form and every branch long. -/
def bytesNeeded (b : MethodBody) : Nat :=
  (b.code.instructions.map fun i => i.expanded.compacted.byteCount).sum

/-- Without branches the code takes the room that was reckoned with. -/
theorem codeSize_of_compact (hc : compact refs returnType b = .ok () c)
    (hnone : ∀ i ∈ b.code.instructions, i.expanded.compacted.op.operandKind ≠ .branch) :
    c.codeSize.toNat = b.roomNeeded := by
  obtain ⟨s, hs⟩ := exists_expand_of_compact hc
  obtain ⟨hverified, hsame⟩ := compact_eq_ok hc
  have hmap := (expand_eq_ok hs).1.trans (mapped_compactAll s)
  have hsize : ∀ id, c.code.sizeOf id = s.compactAll.code.sizeOf id := by
    intro id
    cases hi : b.code.get? id with
    | none =>
      have hid : id ∉ b.code.ids := fun hid => by
        obtain ⟨i, hi'⟩ := InstructionList.get?_of_mem hid
        rw [hi] at hi'
        cases hi'
      simp only [InstructionList.sizeOf, InstructionList.get?_eq_none (hsame.ids ▸ hid),
        InstructionList.get?_eq_none (hmap.ids ▸ hid)]
    | some i =>
      obtain ⟨i', hi', hform⟩ := compact_get? hc hi
      have hlong := hnone i (InstructionList.mem_instructions.mpr ⟨id, hi⟩)
      have hshort : i'.op.operandKind ≠ .shortBranch := fun hkind => by
        obtain ⟨hop, -⟩ := compacted_congr (hsame.same id i i' hi hi').1
          (hsame.same id i i' hi hi').2
        exact hlong (hop ▸ Instruction.operandKind_compacted_expanded hkind)
      obtain ⟨hop, hoperand⟩ := hform.resolve_left hshort
      rw [InstructionList.sizeOf_eq hi', InstructionList.sizeOf_eq (hmap.get?_of hi),
        size_congr hop hoperand]
  rw [hverified.codeSize, InstructionList.span_congr hsize, hsame.ids, ← hmap.ids,
    span_compactAll (expand_eq_ok hs).1]

/-- A loop over a jump table with so many targets. -/
def jumping (count : Nat) : MethodBody :=
  { MethodBody.empty with
    code := (InstructionList.ofList [.of .ldcI4 (.immediate (.int32 0)),
      .of .switch (.switch (List.replicate count ⟨0⟩)), .plain .ret]).toOption.getD .empty }

section Jumping

variable {count : Nat} {id : InstrId} {i : Instruction}

theorem jumping_cases (hi : (jumping count).code.get? id = some i) :
    (id = ⟨0⟩ ∧ i = .of .ldcI4 (.immediate (.int32 0))) ∨
      (id = ⟨1⟩ ∧ i = .of .switch (.switch (List.replicate count ⟨0⟩))) ∨
        (id = ⟨2⟩ ∧ i = .plain .ret) := by
  have hentries : (jumping count).code.entries =
      [(⟨0⟩, .of .ldcI4 (.immediate (.int32 0))),
        (⟨1⟩, .of .switch (.switch (List.replicate count ⟨0⟩))), (⟨2⟩, .plain .ret)] := rfl
  have hmem := InstructionList.mem_entries.mpr hi
  rw [hentries] at hmem
  simpa using hmem

theorem valid_jumping (count : Nat) : (jumping count).Valid := by
  refine ⟨?_, ?_, nofun⟩
  · intro id i hi t ht
    obtain ⟨rfl, rfl⟩ | ⟨rfl, rfl⟩ | ⟨rfl, rfl⟩ := jumping_cases hi
    · cases ht
    · obtain rfl := List.eq_of_mem_replicate ht
      rfl
    · cases ht
  · intro id i index hi hop
    obtain ⟨rfl, rfl⟩ | ⟨rfl, rfl⟩ | ⟨rfl, rfl⟩ := jumping_cases hi <;> cases hop

theorem expand_jumping (count : Nat) : expand (jumping count) = .ok () (jumping count) := by
  refine expand_of_expanded (fun id i hi => ?_) (valid_jumping count)
  obtain ⟨rfl, rfl⟩ | ⟨rfl, rfl⟩ | ⟨rfl, rfl⟩ := jumping_cases hi <;> exact ⟨rfl, rfl⟩

theorem next?_jumping : (jumping count).code.next? ⟨0⟩ = some ⟨1⟩ ∧
    (jumping count).code.next? ⟨1⟩ = some ⟨2⟩ := ⟨rfl, rfl⟩

theorem arrives_jumping {depth : Nat} (h : (jumping count).Arrives .empty .void id depth) :
    (id = ⟨0⟩ ∧ depth = 0) ∨ (id = ⟨1⟩ ∧ depth = 1) ∨ (id = ⟨2⟩ ∧ depth = 0) := by
  induction h with
  | entry hentry =>
    cases hentry with
    | first hid => cases hid; exact .inl ⟨rfl, rfl⟩
    | handler hmem => cases hmem
    | filter hmem _ => cases hmem
  | next _ hexecutes hgoes hnext ih =>
    obtain ⟨hi, pops, pushes, heffect, -, rfl⟩ := hexecutes
    obtain ⟨rfl, rfl⟩ | ⟨rfl, rfl⟩ | ⟨rfl, rfl⟩ := jumping_cases hi <;> cases heffect
    · rw [next?_jumping.1] at hnext
      cases hnext
      simp_all
    · rw [next?_jumping.2] at hnext
      cases hnext
      simp_all
    · cases hgoes
  | target _ hexecutes _ htarget ih =>
    obtain ⟨hi, pops, pushes, heffect, -, rfl⟩ := hexecutes
    obtain ⟨rfl, rfl⟩ | ⟨rfl, rfl⟩ | ⟨rfl, rfl⟩ := jumping_cases hi <;> cases heffect
    · cases htarget
    · obtain rfl := List.eq_of_mem_replicate htarget
      simp_all
    · cases htarget

theorem balanced_jumping (count : Nat) : (jumping count).Balanced .empty .void := by
  refine ⟨fun id depth h => ?_, ?_, ?_, ?_, ?_⟩
  · obtain ⟨rfl, -⟩ | ⟨rfl, -⟩ | ⟨rfl, -⟩ := arrives_jumping h <;> rfl
  · intro id depth i _ hi
    obtain ⟨rfl, rfl⟩ | ⟨rfl, rfl⟩ | ⟨rfl, rfl⟩ := jumping_cases hi <;> exact ⟨_, rfl⟩
  · intro id depth i pops pushes harrives hi heffect
    obtain ⟨rfl, rfl⟩ | ⟨rfl, rfl⟩ | ⟨rfl, rfl⟩ := jumping_cases hi <;> cases heffect
    · exact Nat.zero_le _
    · obtain ⟨hid, -⟩ | ⟨-, rfl⟩ | ⟨hid, -⟩ := arrives_jumping harrives
      · cases hid
      · exact Nat.le_refl 1
      · cases hid
    · exact Nat.zero_le _
  · intro id depth i _ hi hgoes
    obtain ⟨rfl, rfl⟩ | ⟨rfl, rfl⟩ | ⟨rfl, rfl⟩ := jumping_cases hi
    · exact ⟨⟨1⟩, next?_jumping.1⟩
    · exact ⟨⟨2⟩, next?_jumping.2⟩
    · cases hgoes
  · intro id depth depth' h h'
    obtain ⟨rfl, rfl⟩ | ⟨rfl, rfl⟩ | ⟨rfl, rfl⟩ := arrives_jumping h <;>
      simpa [eq_comm] using arrives_jumping h'

theorem byteCount_table (count : Nat) :
    (Instruction.of .switch (.switch (List.replicate count ⟨0⟩))).byteCount = 5 + 4 * count := by
  have hcount : (List.replicate count (⟨0⟩ : InstrId)).length = count := List.length_replicate
  calc (Instruction.of .switch (.switch (List.replicate count ⟨0⟩))).byteCount
      = 1 + (4 + 4 * (List.replicate count (⟨0⟩ : InstrId)).length) := rfl
    _ = 5 + 4 * count := by rw [hcount]; omega

/-- A loop over a table is compacted however long the table is. Its size is what is left of its
bytes in 32 bits. -/
theorem exists_compact_jumping (count : Nat) :
    ∃ c, compact .empty .void (jumping count) = .ok () c ∧
      c.codeSize.toNat = 2 + (5 + 4 * count) % 2 ^ 32 ∧
      (jumping count).bytesNeeded = 7 + 4 * count := by
  have hinstructions : (jumping count).code.instructions =
      [.of .ldcI4 (.immediate (.int32 0)), .of .switch (.switch (List.replicate count ⟨0⟩)),
        .plain .ret] := rfl
  have hroom : (jumping count).roomNeeded = 2 + (5 + 4 * count) % 2 ^ 32 := by
    have hsize := (Instruction.of .switch (.switch (List.replicate count ⟨0⟩))).size_eq_ofNat
    rw [byteCount_table] at hsize
    calc (jumping count).roomNeeded
        = 1 + ((Instruction.of .switch (.switch (List.replicate count ⟨0⟩))).size.toNat + 1) := by
          unfold roomNeeded
          rw [hinstructions]
          rfl
      _ = 2 + (5 + 4 * count) % 2 ^ 32 := by
          rw [hsize, UInt32.toNat_ofNat']
          omega
  have hdepth : ∃ m, (jumping count).computeMaxStack .empty .void = .ok m := by
    have hne : (jumping count).code.ids ≠ [] := nofun
    refine (exists_computeMaxStack_eq_ok hne).mpr ⟨balanced_jumping count, ?_⟩
    rintro k ⟨id, depth, harrives, rfl | ⟨i, hi, pops, pushes, heffect, -, rfl⟩⟩
    · obtain ⟨-, rfl⟩ | ⟨-, rfl⟩ | ⟨-, rfl⟩ := arrives_jumping harrives <;> decide
    · obtain ⟨rfl, rfl⟩ | ⟨rfl, rfl⟩ | ⟨rfl, rfl⟩ := jumping_cases hi <;> cases heffect <;>
        obtain ⟨-, rfl⟩ | ⟨-, rfl⟩ | ⟨-, rfl⟩ := arrives_jumping harrives <;> decide
  obtain ⟨c, hc⟩ := exists_compact_iff.mpr
    ⟨⟨_, expand_jumping count⟩, by rw [hroom, UInt32.size]; omega, hdepth⟩
  refine ⟨c, hc, ?_, ?_⟩
  · rw [← hroom]
    refine codeSize_of_compact hc fun i hi => ?_
    rw [hinstructions] at hi
    simp only [List.mem_cons, List.not_mem_nil, or_false] at hi
    obtain rfl | rfl | rfl := hi <;> nofun
  · calc (jumping count).bytesNeeded
        = 1 + ((Instruction.of .switch (.switch (List.replicate count ⟨0⟩))).byteCount + 1) := by
          unfold bytesNeeded
          rw [hinstructions]
          rfl
      _ = 7 + 4 * count := by rw [byteCount_table]; omega

/-- So a loop of more than 4 GiB can get a size of seven bytes. -/
example : ∃ c, compact .empty .void (jumping (2 ^ 30)) = .ok () c ∧ c.codeSize.toNat = 7 ∧
    (jumping (2 ^ 30)).bytesNeeded = 7 + 2 ^ 32 := exists_compact_jumping (2 ^ 30)

end Jumping

end MethodBody

end CilWeave
