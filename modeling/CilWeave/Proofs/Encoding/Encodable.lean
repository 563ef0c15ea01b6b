import Mathlib.Algebra.GroupWithZero.Nat
import CilWeave.Proofs.Encoding.Layout

/-
A compacted body can be written out as bytes.

`MethodBody.Encodable` is what a writer needs: operands that fit, offsets that are the sums
of the sizes in front of them, and short branches whose displacement is a signed byte.
However often the branches were shortened, and whether the rounds ended because nothing was
left to shorten or because they were used up, the last step is a layout of the code as it
then is (`encodable_of_shortenBranches`).

Sizes are numbers of 32 bits, as offsets are. `Instruction.byteCount` is what an instruction
takes without that limit; the two agree unless a jump table has `2 ^ 30 - 1` targets or more
(`Instruction.toNat_size_eq`, `InstructionList.bytes_eq`).
-/

namespace CilWeave

theorem OpCode.size?_eq_none {op : OpCode} : op.operandKind.size? = none ↔ op = .switch := by
  cases op <;> decide

namespace Instruction

variable {i : Instruction}

/-- The bytes of an instruction, counted without a limit. -/
def byteCount (i : Instruction) : Nat :=
  i.op.size.toNat +
    match i.op.operandKind.size?, i.operand with
    | some n, _ => n.toNat
    | none, .switch ids => 4 + 4 * ids.length
    | none, _ => 4

/-- A jump table with more targets than 32 bits can count the bytes of. -/
def IsOverlong (i : Instruction) : Prop := i.op = .switch ∧ 2 ^ 30 - 1 ≤ i.targets.length

theorem byteCount_eq {n : UInt32} (h : i.op.operandKind.size? = some n) :
    i.byteCount = i.op.size.toNat + n.toNat := by
  unfold byteCount
  rw [h]

theorem byteCount_le_of_ne (h : i.op ≠ .switch) : i.byteCount ≤ 10 := by
  have hle : ∀ op : OpCode, op ≠ .switch →
      op.size.toNat + (op.operandKind.size?.map UInt32.toNat).getD 0 ≤ 10 := by
    intro op
    cases op <;> decide
  cases hsize : i.op.operandKind.size? with
  | none => exact absurd (OpCode.size?_eq_none.mp hsize) h
  | some n =>
    have hop := hle i.op h
    rw [hsize] at hop
    rw [byteCount_eq hsize]
    exact hop

theorem byteCount_of_switch (h : i.op = .switch) :
    i.byteCount = 5 + 4 * i.targets.length ∨ i.byteCount = 5 ∧ i.targets.length ≤ 1 := by
  obtain ⟨op, operand, offset⟩ := i
  obtain rfl : op = .switch := h
  cases operand with
  | «switch» ids => exact .inl (Nat.add_assoc 1 4 (4 * ids.length)).symm
  | target id => exact .inr ⟨rfl, Nat.le_refl 1⟩
  | _ => exact .inr ⟨rfl, Nat.zero_le 1⟩

/-- The size of an instruction is its number of bytes in 32 bits. -/
theorem size_eq_ofNat (i : Instruction) : i.size = UInt32.ofNat i.byteCount := by
  unfold size byteCount
  rw [UInt32.ofNat_add, UInt32.ofNat_toNat]
  cases i.op.operandKind.size? with
  | some n => exact congrArg (i.op.size + ·) UInt32.ofNat_toNat.symm
  | none =>
    cases i.operand with
    | «switch» ids =>
      simp only [UInt32.ofNat_add, UInt32.ofNat_mul]
      rfl
    | _ => rfl

theorem byteCount_lt_iff : i.byteCount < UInt32.size ↔ ¬ i.IsOverlong := by
  have hsize : UInt32.size = 2 ^ 32 := rfl
  unfold IsOverlong
  by_cases hop : i.op = .switch
  · have htargets := byteCount_of_switch hop
    simp only [hop, true_and]
    omega
  · have hle := byteCount_le_of_ne hop
    simp only [hop, false_and, not_false_eq_true, iff_true]
    omega

theorem toNat_size_eq (h : ¬ i.IsOverlong) : i.size.toNat = i.byteCount := by
  rw [size_eq_ofNat, UInt32.toNat_ofNat_of_lt' (byteCount_lt_iff.mpr h)]

end Instruction

namespace InstructionList

variable {l : InstructionList}

def bytes (entries : List (InstrId × Instruction)) : Nat :=
  (entries.map fun e => e.2.size.toNat).sum

/-- Unless a table is too long, they are as many as are written. -/
theorem bytes_eq {entries : List (InstrId × Instruction)}
    (h : ∀ e ∈ entries, ¬ e.2.IsOverlong) : bytes entries = (entries.map (·.2.byteCount)).sum := by
  unfold bytes
  rw [List.map_congr_left fun e he => Instruction.toNat_size_eq (h e he)]

theorem span_eq_bytes : ∀ {es : List (InstrId × Instruction)},
    (∀ e ∈ es, e ∈ l.entries) → l.span (es.map Prod.fst) = bytes es
  | [], _ => rfl
  | (id, i) :: rest, h => by
    have ih := span_eq_bytes fun e he => h e (List.mem_cons_of_mem _ he)
    have hi : l.get? id = some i := mem_entries.mp (h (id, i) List.mem_cons_self)
    unfold bytes at ih ⊢
    rw [List.map_cons, span, ih, sizeOf_eq hi, List.map_cons, List.sum_cons]

theorem before_of_split {front back : List (InstrId × Instruction)} {id : InstrId}
    {i : Instruction} (h : l.entries = front ++ (id, i) :: back) :
    l.before id = front.map Prod.fst := by
  have hids : l.ids = front.map Prod.fst ++ id :: back.map Prod.fst := by
    rw [← map_fst_entries, h, List.map_append, List.map_cons]
  have hnodup := l.nodup_ids
  rw [hids, List.nodup_append] at hnodup
  have hfront : ∀ x ∈ front.map Prod.fst, (x != id) = true := fun x hx =>
    bne_iff_ne.mpr (hnodup.2.2 x hx id List.mem_cons_self)
  unfold before
  rw [hids, List.takeWhile_append_of_pos hfront, List.takeWhile_cons_of_neg (by simp),
    List.append_nil]

theorem before_of_getElem? {l : InstructionList} {id : InstrId} {p : Nat}
    (h : l.ids[p]? = some id) : l.before id = l.ids.take p := by
  obtain ⟨hp, hid⟩ := List.getElem?_eq_some_iff.mp h
  have hsplit : l.ids = l.ids.take p ++ id :: l.ids.drop (p + 1) := by
    rw [← hid, ← List.drop_eq_getElem_cons hp, List.take_append_drop]
  have hnodup := l.nodup_ids
  rw [hsplit, List.nodup_append] at hnodup
  have hfront : ∀ x ∈ l.ids.take p, (x != id) = true := fun x hx =>
    bne_iff_ne.mpr (hnodup.2.2 x hx id List.mem_cons_self)
  unfold before
  rw [hsplit, List.takeWhile_append_of_pos hfront, List.takeWhile_cons_of_neg (by simp),
    List.append_nil, ← hsplit]

end InstructionList

namespace MethodBody

open InstructionList (bytes)

variable {b b' : MethodBody}

/-- A body whose instructions can be written one after the other. -/
structure Encodable (b : MethodBody) : Prop where
  operands : ∀ e ∈ b.code.entries, e.2.checkOperand = .ok ()
  offset : ∀ front e back, b.code.entries = front ++ e :: back →
    e.2.offset.toNat = bytes front
  codeSize : b.codeSize.toNat = bytes b.code.entries
  shortBranch : ∀ e ∈ b.code.entries, e.2.op.operandKind = .shortBranch →
    ∃ t target, e.2.operand = .target t ∧ (t, target) ∈ b.code.entries ∧
      -128 ≤ (target.offset.toNat : Int) - (e.2.offset.toNat + e.2.size.toNat) ∧
      (target.offset.toNat : Int) - (e.2.offset.toNat + e.2.size.toNat) ≤ 127

theorem encodable_of_laidOut (hready : b.Shortenable) (hlaid : b.LaidOut) : b.Encodable where
  operands e he :=
    Instruction.checkOperand_eq_ok.mpr (hready.fitting e.1 e.2 (InstructionList.mem_entries.mp he))
  offset front e back hsplit := by
    have he : e ∈ b.code.entries := hsplit ▸ List.mem_append_right _ List.mem_cons_self
    rw [hlaid.offset e.1 e.2 (InstructionList.mem_entries.mp he),
      InstructionList.before_of_split hsplit]
    exact InstructionList.span_eq_bytes fun x hx => hsplit ▸ List.mem_append_left _ hx
  codeSize := by
    rw [hlaid.codeSize, ← InstructionList.map_fst_entries]
    exact InstructionList.span_eq_bytes fun _ he => he
  shortBranch e he hkind := by
    have hi := InstructionList.mem_entries.mp he
    obtain ⟨t, hop, ht, hreach⟩ := hready.inReach e.1 e.2 hi hkind
    obtain ⟨target, htarget⟩ := InstructionList.contains_iff.mp ht
    have hd := hlaid.displacement_eq hi htarget
    unfold displacement at hd
    refine ⟨t, target, hop, InstructionList.mem_entries.mpr htarget, ?_⟩
    omega

/-- However many rounds there are, branches are shortened to a body that can be encoded. -/
theorem encodable_of_shortenBranches {rounds : Nat} (hready : b.Shortenable)
    (h : shortenBranches rounds b = .ok () b') : b'.Encodable := by
  obtain ⟨hready', hlaid, -⟩ := shortenBranches_eq_ok hready h
  exact encodable_of_laidOut hready' hlaid

/-- Every body that was compacted can be encoded. -/
theorem encodable_of_compact (b b' : MethodBody) (refs : ReferenceTable) (returnType : TypeSig)
    (h : compact refs returnType b = .ok () b') : b'.Encodable := by
  obtain ⟨s, s', m, hready, -, hshorten, -, rfl⟩ := compact_cases h
  have hencodable := encodable_of_shortenBranches hready hshorten
  exact ⟨hencodable.operands, hencodable.offset, hencodable.codeSize, hencodable.shortBranch⟩

/-- A loop that leaves a protected region; every branch gets its short form, one of them
backwards. -/
def leaving : MethodBody :=
  { MethodBody.empty with
    code := (InstructionList.ofList [.ldarg 300, .branch .brtrue ⟨0⟩, .branch .leave ⟨5⟩,
      .plain .pop, .branch .leave ⟨5⟩, .plain .ret]).toOption.getD .empty
    handlers := [.catching .object ⟨0⟩ (some ⟨3⟩) ⟨3⟩ (some ⟨5⟩)] }

theorem encodable_of_compact_leaving : ∃ b', compact .empty .void leaving = .ok () b' ∧
    b'.code.instructions.map (fun i => (i.op, i.offset)) =
      [(.ldarg, 0), (.brtrueS, 4), (.leaveS, 6), (.pop, 8), (.leaveS, 9), (.ret, 11)] ∧
    b'.codeSize = 12 ∧ b'.Encodable := by
  obtain ⟨b', h, hcode, hsize⟩ : ∃ b', compact .empty .void leaving = .ok () b' ∧
      b'.code.instructions.map (fun i => (i.op, i.offset)) =
        [(.ldarg, 0), (.brtrueS, 4), (.leaveS, 6), (.pop, 8), (.leaveS, 9), (.ret, 11)] ∧
      b'.codeSize = 12 := ⟨_, rfl, rfl, rfl⟩
  exact ⟨b', h, hcode, hsize, encodable_of_compact leaving b' .empty .void h⟩

end MethodBody

end CilWeave
