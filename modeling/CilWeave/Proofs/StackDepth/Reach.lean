import CilWeave.Proofs.Encoding.Effects
import CilWeave.Proofs.References

/-
Where control can come to at all.

`MethodBody.Reaches` is the control flow of a body without the depth of the stack, so it makes
sense of a body that the analysis refuses. In a body that is accepted, control comes to an
instruction with some depth (`MethodBody.Balanced.exists_arrives`). So each call that control can
come to is the call of a method that is known (`MethodBody.resolvesCalls_of_computeMaxStack`).
-/

namespace CilWeave

/-- Whether the method that the opcode calls is named by a token. -/
def OpCode.callsMethod : OpCode → Bool
  | .call | .callvirt | .newobj => true
  | _ => false

theorem OpCode.of_callsMethod {op : OpCode} (h : op.callsMethod = true) :
    op = .call ∨ op = .callvirt ∨ op = .newobj := by
  simp only [callsMethod] at h
  split at h
  · exact .inl rfl
  · exact .inr (.inl rfl)
  · exact .inr (.inr rfl)
  · cases h

theorem OpCode.namesMember_of_callsMethod {op : OpCode} (h : op.callsMethod = true) :
    op.namesMember = true := by
  rcases of_callsMethod h with rfl | rfl | rfl <;> rfl

namespace Instruction

variable {i : Instruction} {refs : ReferenceTable} {returnType : TypeSig}

theorem exists_calledMethod (hop : i.op.callsMethod = true) {effect : Nat × Nat}
    (h : i.stackEffect refs returnType = .ok effect) :
    ∃ callee, i.calledMethod refs = .ok callee := by
  have hstack : i.op.info.stack = .call ∨ i.op.info.stack = .newObj := by
    rcases OpCode.of_callsMethod hop with hop | hop | hop <;> rw [hop]
    · exact .inl rfl
    · exact .inl rfl
    · exact .inr rfl
  cases hcalled : i.calledMethod refs with
  | ok callee => exact ⟨callee, rfl⟩
  | error e =>
    simp only [stackEffect, hcalled] at h
    rcases hstack with hstack | hstack <;> rw [hstack] at h <;> cases h

end Instruction

namespace MethodBody

variable {b : MethodBody} {refs later : ReferenceTable} {returnType : TypeSig} {id : InstrId}

/-- Control can come to an instruction, whatever is on the stack. -/
inductive Reaches (b : MethodBody) : InstrId → Prop where
  | entry {id : InstrId} {depth : Nat} : Entry b id depth → Reaches b id
  | next {id id' : InstrId} {i : Instruction} : Reaches b id → b.code.get? id = some i →
      i.op.flow.goesOn = true → b.code.next? id = some id' → Reaches b id'
  | target {id id' : InstrId} {i : Instruction} : Reaches b id → b.code.get? id = some i →
      i.op.flow.jumps = true → id' ∈ i.targets → Reaches b id'

/-- In a balanced body control brings some depth wherever it comes to. -/
theorem Balanced.exists_arrives (hb : b.Balanced refs returnType) (h : b.Reaches id) :
    ∃ depth, b.Arrives refs returnType id depth := by
  have executes : ∀ {id i depth}, b.Arrives refs returnType id depth → b.code.get? id = some i →
      ∃ after, b.Executes refs returnType id depth i after := by
    intro id i depth harrives hi
    obtain ⟨⟨pops, pushes⟩, heffect⟩ := hb.defined id depth i harrives hi
    have hfed := hb.fed id depth i pops pushes harrives hi heffect
    exact ⟨_, hi, pops, pushes, heffect, hfed, rfl⟩
  induction h with
  | entry hentry => exact ⟨_, .entry hentry⟩
  | next _ hi hgoes hnext ih =>
    obtain ⟨depth, harrives⟩ := ih
    obtain ⟨after, hexecutes⟩ := executes harrives hi
    exact ⟨after, .next harrives hexecutes hgoes hnext⟩
  | target _ hi hjumps htarget ih =>
    obtain ⟨depth, harrives⟩ := ih
    obtain ⟨after, hexecutes⟩ := executes harrives hi
    exact ⟨_, .target harrives hexecutes hjumps htarget⟩

/-- Each call that control can come to is the call of a method that is known. -/
def ResolvesCalls (b : MethodBody) (refs : ReferenceTable) : Prop :=
  ∀ id i, b.Reaches id → b.code.get? id = some i → i.op.callsMethod = true →
    ∃ callee, i.calledMethod refs = .ok callee

theorem ResolvesCalls.of_growsTo (h : b.ResolvesCalls refs) (hgrows : refs.GrowsTo later) :
    b.ResolvesCalls later := by
  intro id i hreaches hi hop
  obtain ⟨callee, hcallee⟩ := h id i hreaches hi hop
  exact ⟨callee, hgrows.calledMethod_eq_ok hcallee⟩

/-- A body is only accepted if all its calls are known. -/
theorem resolvesCalls_of_computeMaxStack {m : UInt16}
    (h : b.computeMaxStack refs returnType = .ok m) : b.ResolvesCalls refs := by
  intro id i hreaches hi hop
  have hne : b.code.ids ≠ [] := List.ne_nil_of_mem (InstructionList.mem_ids_of_get? hi)
  have hbalanced : b.Balanced refs returnType := ((computeMaxStack_eq_ok hne m).mp h).1
  obtain ⟨depth, harrives⟩ := hbalanced.exists_arrives hreaches
  obtain ⟨effect, heffect⟩ := hbalanced.defined id depth i harrives hi
  exact Instruction.exists_calledMethod hop heffect

end MethodBody

end CilWeave
