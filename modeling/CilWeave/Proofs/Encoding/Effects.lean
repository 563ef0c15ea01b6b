import CilWeave.Proofs.Encoding.Recoding
import CilWeave.Proofs.StackDepth.Exact

/-
What an instruction does to control and to the stack, whichever form it is written in.

All forms of an instruction move control the same way, to the same targets, and pop and push
the same number of values (`Instruction.SaysSame.flow_eq` and the lemmas beside it). So bodies
that say the same run alike, and the analysis of the stack gives one answer for all of them
(`MethodBody.Rephrases.computeMaxStack_iff`).
-/

namespace CilWeave

theorem OpCode.moves_of_longBranch? {short long : OpCode} (h : short.longBranch? = some long) :
    long.flow = short.flow ∧ long.info.stack = short.info.stack := by
  unfold longBranch? at h
  split at h <;> cases h <;> exact ⟨rfl, rfl⟩

/-- Whether the opcode has the token of a method or of a field. -/
def OpCode.namesMember (op : OpCode) : Bool :=
  op.operandKind == .method || op.operandKind == .field

namespace Instruction

variable {i i' : Instruction} {op : OpCode} {operand : Operand} {refs : ReferenceTable}
  {returnType : TypeSig}

/-! ## One form and the other -/

theorem moves_of_expandedForm? (h : i.expandedForm? = some (op, operand)) :
    op.flow = i.op.flow ∧ op.info.stack = i.op.info.stack := by
  obtain ⟨o, a, n⟩ := i
  unfold expandedForm? at h
  simp only at h ⊢
  split at h
  case h_30 =>
    obtain ⟨long, hlong, heq⟩ := Option.map_eq_some_iff.mp h
    cases heq
    exact OpCode.moves_of_longBranch? hlong
  case h_29 => split at h <;> cases h; exact ⟨rfl, rfl⟩
  all_goals
    cases h
    exact ⟨rfl, rfl⟩

theorem moves_expanded (i : Instruction) :
    i.expanded.op.flow = i.op.flow ∧ i.expanded.op.info.stack = i.op.info.stack := by
  cases h : i.expandedForm? with
  | none => rw [expanded_of_none h]; exact ⟨rfl, rfl⟩
  | some form => rw [expanded_of_some h]; exact moves_of_expandedForm? h

theorem namesMember_of_expandedForm? (h : i.expandedForm? = some (op, operand)) :
    op.namesMember = false ∧ i.op.namesMember = false := by
  obtain ⟨o, a, n⟩ := i
  simp only [expandedForm?] at h ⊢
  split at h
  case h_30 =>
    obtain ⟨long, hlong, heq⟩ := Option.map_eq_some_iff.mp h
    cases heq
    unfold OpCode.longBranch? at hlong
    split at hlong <;> cases hlong <;> exact ⟨rfl, rfl⟩
  case h_29 => split at h <;> cases h; exact ⟨rfl, rfl⟩
  all_goals
    cases h
    exact ⟨rfl, rfl⟩

theorem expanded_of_namesMember (h : i.op.namesMember = true) : i.expanded = i := by
  cases hform : i.expandedForm? with
  | none => exact expanded_of_none hform
  | some form =>
    rw [(namesMember_of_expandedForm? hform).2] at h
    cases h

theorem targets_expanded (hi : i.operand.fits i.op.operandKind = true) :
    i.expanded.targets = i.targets := by
  cases h : i.expandedForm? with
  | none => rw [expanded_of_none h]
  | some form => rw [expanded_of_some h]; exact (widens_of_expandedForm? h).targets_eq hi

theorem targets_expanded_of_jumps (h : i.op.flow.jumps = true) :
    i.expanded.targets = i.targets := by
  have hform : ∀ {op : OpCode} {operand : Operand}, i.expandedForm? = some (op, operand) →
      operand = i.operand := by
    obtain ⟨o, a, n⟩ := i
    intro op operand hform
    simp only [expandedForm?] at hform h ⊢
    split at hform
    case h_30 =>
      obtain ⟨long, -, heq⟩ := Option.map_eq_some_iff.mp hform
      cases heq
      rfl
    all_goals cases h
  cases hi : i.expandedForm? with
  | none => rw [expanded_of_none hi]
  | some form =>
    rw [expanded_of_some hi, hform hi]
    rfl

theorem token?_expanded (hi : i.operand.fits i.op.operandKind = true) :
    i.expanded.token? = i.token? := by
  cases h : i.expandedForm? with
  | none => rw [expanded_of_none h]
  | some form => rw [expanded_of_some h]; exact (widens_of_expandedForm? h).token?_eq hi

/-- The effect of an instruction depends on how its opcode uses the stack and on its token. -/
theorem stackEffect_eq_ok {effect : Nat × Nat} (hstack : i'.op.info.stack = i.op.info.stack)
    (htoken : i'.token? = i.token?) (he : i.stackEffect refs returnType = .ok effect) :
    i'.stackEffect refs returnType = .ok effect := by
  have called : ∀ {f : MethodRef → Nat × Nat}, (i.calledMethod refs).map f = .ok effect →
      (i'.calledMethod refs).map f = .ok effect := by
    intro f hf
    unfold calledMethod at hf ⊢
    rw [htoken]
    split at hf
    · exact hf
    · cases hf
  unfold stackEffect at he ⊢
  rw [hstack]
  cases hs : i.op.info.stack with
  | fixed pops pushes => rw [hs] at he; exact he
  | call => rw [hs] at he; exact called he
  | newObj => rw [hs] at he; exact called he
  | «return» => rw [hs] at he; exact he
  | unsupported => rw [hs] at he; cases he

/-! ## Instructions that say the same -/

namespace SaysSame

theorem op_eq (h : i'.SaysSame i) (hi : i.op.namesMember = true) :
    i'.op = i.op ∧ i'.operand = i.operand := by
  have hself := expanded_of_namesMember hi
  have hi' : i'.op.namesMember = true := by
    cases hform : i'.expandedForm? with
    | none =>
      rw [← expanded_of_none hform, h.1, hself]
      exact hi
    | some form =>
      have hop : i'.expanded.op.namesMember = false := by
        rw [expanded_of_some hform]
        exact (namesMember_of_expandedForm? hform).1
      rw [h.1, hself, hi] at hop
      cases hop
  have hsame := h
  simp only [SaysSame, hself, expanded_of_namesMember hi'] at hsame
  exact hsame

theorem flow_eq (h : i'.SaysSame i) : i'.op.flow = i.op.flow := by
  rw [← i.moves_expanded.1, ← i'.moves_expanded.1, h.1]

theorem targets_eq (h : i'.SaysSame i) (hi : i.operand.fits i.op.operandKind = true)
    (hi' : i'.operand.fits i'.op.operandKind = true) : i'.targets = i.targets := by
  rw [← targets_expanded hi, ← targets_expanded hi']
  exact congrArg Operand.targets h.2

theorem targets_eq_of_jumps (h : i'.SaysSame i) (hi : i.op.flow.jumps = true) :
    i'.targets = i.targets := by
  rw [← targets_expanded_of_jumps hi, ← targets_expanded_of_jumps (h.flow_eq ▸ hi)]
  exact congrArg Operand.targets h.2

theorem token?_eq (h : i'.SaysSame i) (hi : i.operand.fits i.op.operandKind = true)
    (hi' : i'.operand.fits i'.op.operandKind = true) : i'.token? = i.token? := by
  rw [← token?_expanded hi, ← token?_expanded hi']
  exact congrArg Operand.token? h.2

theorem stackEffect_eq_ok {effect : Nat × Nat} (h : i'.SaysSame i)
    (hi : i.operand.fits i.op.operandKind = true) (hi' : i'.operand.fits i'.op.operandKind = true)
    (he : i.stackEffect refs returnType = .ok effect) :
    i'.stackEffect refs returnType = .ok effect := by
  have hstack : i'.op.info.stack = i.op.info.stack := by
    rw [← i.moves_expanded.2, ← i'.moves_expanded.2, h.1]
  exact Instruction.stackEffect_eq_ok hstack (h.token?_eq hi hi') he

end SaysSame

end Instruction

/-! ## Bodies that say the same -/

namespace MethodBody

variable {b b' : MethodBody} {refs refs' : ReferenceTable} {returnType : TypeSig} {m : UInt16}

theorem computeMaxStack_of_empty (h : b.code.ids = []) :
    b.computeMaxStack refs returnType = .ok 0 := by
  unfold computeMaxStack
  rw [if_pos (InstructionList.isEmpty_iff.mpr h)]

theorem RunsAlike.computeMaxStack_eq_ok (h : RunsAlike b refs b' refs' returnType)
    (hm : b.computeMaxStack refs returnType = .ok m) :
    b'.computeMaxStack refs' returnType = .ok m := by
  by_cases hempty : b.code.ids = []
  · rw [computeMaxStack_of_empty hempty] at hm
    rw [computeMaxStack_of_empty (h.ids.trans hempty), ← hm]
  · exact computeMaxStack_of_runsAlike h hempty hm

namespace Rephrases

theorem symm (h : b'.Rephrases b) : b.Rephrases b' := by
  refine ⟨h.ids.symm, h.slots.symm, h.locals.symm, h.handlers.symm, ?_⟩
  intro id i' i hi' hi
  exact (h.same id i i' hi hi').symm

theorem runsAlike (h : b'.Rephrases b) (hb : b.Fitting) (hb' : b'.Fitting)
    (refs : ReferenceTable) (returnType : TypeSig) : RunsAlike b refs b' refs returnType where
  ids := h.ids
  handlers handler := by rw [h.handlers]
  instruction id i hi := by
    obtain ⟨i', hi'⟩ := InstructionList.get?_of_mem (h.ids ▸ InstructionList.mem_ids_of_get? hi)
    have hsame := h.same id i i' hi hi'
    have hfits := hb id i hi
    have hfits' := hb' id i' hi'
    exact ⟨i', hi', hsame.flow_eq, fun t => by rw [hsame.targets_eq hfits hfits'],
      fun effect => hsame.stackEffect_eq_ok hfits hfits'⟩

/-- The depth of the stack is a matter of what a body says. -/
theorem computeMaxStack_iff (h : b'.Rephrases b) (hb : b.Fitting) (hb' : b'.Fitting) :
    b'.computeMaxStack refs returnType = .ok m ↔ b.computeMaxStack refs returnType = .ok m :=
  ⟨(h.symm.runsAlike hb' hb refs returnType).computeMaxStack_eq_ok,
    (h.runsAlike hb hb' refs returnType).computeMaxStack_eq_ok⟩

end Rephrases

end MethodBody

end CilWeave
