import CilWeave.Encoding.Layout

/-
The forms of an instruction say the same.

`Operand.Widens` is what an expansion can do to an operand and its kind, and the
other two changes of form are seen through it: what a compacted instruction or a
short branch expands to is what it was made of. So the expanded form is what an
instruction says, and `Instruction.SaysSame` is kept by every change of form. None of
them makes an operand unfit, moves a target or names another local.
-/

namespace CilWeave

/-! ## Opcodes -/

namespace OpCode

theorem operandKind_of_longBranch? {short long : OpCode} (h : short.longBranch? = some long) :
    short.operandKind = .shortBranch ∧ long.operandKind = .branch := by
  unfold longBranch? at h
  split at h <;> cases h <;> exact ⟨rfl, rfl⟩

theorem longBranch?_of_operandKind {short : OpCode} (h : short.operandKind = .shortBranch) :
    ∃ long, short.longBranch? = some long := by
  cases short <;> first | exact ⟨_, rfl⟩ | exact absurd h (by decide)

theorem size_of_longBranch? {short long : OpCode} (h : short.longBranch? = some long) :
    short.size = long.size := by
  unfold longBranch? at h
  split at h <;> cases h <;> rfl

theorem of_isCall {op : OpCode} (h : op.isCall = true) : op = .call ∨ op = .callvirt := by
  unfold isCall at h
  split at h
  · exact .inl rfl
  · exact .inr rfl
  · cases h

end OpCode

/-! ## Operands -/

namespace Operand

/-- What becomes of an operand and its kind in the expanded form. -/
inductive Widens : OperandKind → Operand → OperandKind → Operand → Prop where
  | localIndex (a : Operand) : Widens .shortLocal a .local a
  | argumentIndex (a : Operand) : Widens .shortArgument a .argument a
  | branchTarget (a : Operand) : Widens .shortBranch a .branch a
  | impliedLocal (a : Operand) (index : UInt16) : Widens .none a .local (.local index)
  | impliedArgument (a : Operand) (index : UInt16) : Widens .none a .argument (.argument index)
  | impliedInt (a : Operand) (value : Int32) : Widens .none a .int32 (.immediate (.int32 value))
  | byteInt (value : Int8) :
      Widens .int8 (.immediate (.int8 value)) .int32 (.immediate (.int32 value.toInt32))

namespace Widens

variable {kind kind' : OperandKind} {a a' : Operand}

theorem fits (h : Widens kind a kind' a') (ha : a.fits kind = true) : a'.fits kind' = true := by
  cases h with
  | localIndex | argumentIndex | branchTarget => cases a <;> simp_all [Operand.fits]
  | impliedLocal | impliedArgument | impliedInt | byteInt => rfl

theorem targets_eq (h : Widens kind a kind' a') (ha : a.fits kind = true) :
    a'.targets = a.targets := by
  cases h with
  | localIndex | argumentIndex | branchTarget => rfl
  | impliedLocal | impliedArgument | impliedInt => cases a <;> first | rfl | cases ha
  | byteInt => rfl

theorem local_eq (h : Widens kind a kind' a') (ha : a.fits kind = true) {index : UInt16}
    (heq : a = .local index) : a' = .local index := by
  cases h with
  | localIndex | argumentIndex | branchTarget => exact heq
  | impliedLocal | impliedArgument | impliedInt => subst heq; cases ha
  | byteInt => cases heq

theorem token?_eq (h : Widens kind a kind' a') (ha : a.fits kind = true) :
    a'.token? = a.token? := by
  cases h with
  | localIndex | argumentIndex | branchTarget => rfl
  | impliedLocal | impliedArgument | impliedInt => cases a <;> first | rfl | cases ha
  | byteInt => rfl

theorem token?_eq_none (h : Widens kind a kind' a') (ha : a.token? = .none) :
    a'.token? = .none := by
  cases h with
  | localIndex | argumentIndex | branchTarget => exact ha
  | impliedLocal | impliedArgument | impliedInt | byteInt => rfl

end Widens

end Operand

/-! ## Instructions -/

namespace Instruction

variable {i : Instruction} {op : OpCode} {operand : Operand}

theorem checkOperand_eq_ok : i.checkOperand = .ok () ↔ i.operand.fits i.op.operandKind = true := by
  unfold checkOperand
  split
  · rename_i h; exact ⟨fun _ => h, fun _ => rfl⟩
  · rename_i h; exact ⟨nofun, fun h' => absurd h' h⟩

theorem widens_of_expandedForm? (h : i.expandedForm? = some (op, operand)) :
    Operand.Widens i.op.operandKind i.operand op.operandKind operand := by
  obtain ⟨o, a, n⟩ := i
  unfold expandedForm? at h
  simp only at h ⊢
  split at h
  case h_30 =>
    obtain ⟨long, hlong, heq⟩ := Option.map_eq_some_iff.mp h
    cases heq
    obtain ⟨hshort, hlong⟩ := OpCode.operandKind_of_longBranch? hlong
    rw [hshort, hlong]
    exact .branchTarget _
  case h_29 => split at h <;> cases h; exact .byteInt _
  all_goals
    cases h
    first
    | exact .localIndex _
    | exact .argumentIndex _
    | exact .impliedLocal _ _
    | exact .impliedArgument _ _
    | exact .impliedInt _ _

theorem expandedForm?_of_expandedForm? (h : i.expandedForm? = some (op, operand)) (n : UInt32) :
    expandedForm? ⟨op, operand, n⟩ = none := by
  obtain ⟨o, a, _⟩ := i
  unfold expandedForm? at h
  simp only at h
  split at h
  case h_30 =>
    obtain ⟨long, hlong, heq⟩ := Option.map_eq_some_iff.mp h
    cases heq
    unfold OpCode.longBranch? at hlong
    split at hlong <;> cases hlong <;> rfl
  case h_29 => split at h <;> cases h; rfl
  all_goals cases h; rfl

theorem expandedForm?_of_longBranch? {long : OpCode} (h : i.op.longBranch? = some long) :
    i.expandedForm? = some (long, i.operand) := by
  obtain ⟨o, a, _⟩ := i
  simp only at h
  unfold OpCode.longBranch? at h
  split at h <;> cases h <;> rfl

theorem toInt32_toInt8 {value : Int32} (h : -128 ≤ value ∧ value ≤ 127) :
    value.toInt8.toInt32 = value := by
  rw [← Int32.toInt_inj, Int8.toInt_toInt32, Int32.toInt_toInt8]
  have hlo : -128 ≤ value.toInt := Int32.le_iff_toInt_le.mp h.1
  have hhi : value.toInt ≤ 127 := Int32.le_iff_toInt_le.mp h.2
  exact Int.bmod_eq_of_le (by omega) (by omega)

theorem ite_eq_some {α : Type} {c : Prop} [Decidable c] {x y : Option α} {a : α}
    (h : (if c then x else y) = some a) : c ∧ x = some a ∨ ¬ c ∧ y = some a := by
  by_cases hc : c
  · rw [if_pos hc] at h; exact .inl ⟨hc, h⟩
  · rw [if_neg hc] at h; exact .inr ⟨hc, h⟩

/-- A compacted form expands to what it was made of, and its operand fits. -/
theorem compactedForm?_eq_some (h : i.compactedForm? = some (op, operand)) :
    (∀ n, expandedForm? ⟨op, operand, n⟩ = some (i.op, i.operand)) ∧
      operand.fits op.operandKind = true ∧ op.operandKind ≠ .shortBranch := by
  obtain ⟨o, a, _⟩ := i
  -- The form with its index in one byte is the same for all six opcodes that have it.
  have byte : ∀ {short : OpCode} {index : UInt16},
      (if index ≤ 0xFF then some (short, a) else none) = some (op, operand) →
      (∀ a n, expandedForm? ⟨short, a, n⟩ = some (o, a)) →
      (index ≤ 0xFF → a.fits short.operandKind = true) → short.operandKind ≠ .shortBranch →
      (∀ n, expandedForm? ⟨op, operand, n⟩ = some (o, a)) ∧
        operand.fits op.operandKind = true ∧ op.operandKind ≠ .shortBranch := by
    intro short index hform hsame hfits hkind
    rcases ite_eq_some hform with ⟨hle, heq⟩ | ⟨-, heq⟩
    · cases heq
      exact ⟨hsame _, hfits hle, hkind⟩
    · cases heq
  unfold compactedForm? at h
  simp only at h ⊢
  split at h
  case h_7 value =>
    -- First the constants that have an opcode of their own.
    repeat
      rcases ite_eq_some h with ⟨rfl, heq⟩ | ⟨-, h⟩
      · cases heq
        exact ⟨fun _ => rfl, rfl, by decide⟩
    rcases ite_eq_some h with ⟨hrange, heq⟩ | ⟨-, heq⟩
    · cases heq
      refine ⟨fun _ => ?_, rfl, by decide⟩
      exact congrArg (fun v => some (OpCode.ldcI4, Operand.immediate (.int32 v)))
        (toInt32_toInt8 hrange)
    · cases heq
  case h_8 => cases h
  all_goals
    repeat
      rcases ite_eq_some h with ⟨rfl, heq⟩ | ⟨-, h⟩
      · cases heq
        exact ⟨fun _ => rfl, rfl, by decide⟩
    exact byte h (fun _ _ => rfl) (fun hle => decide_eq_true hle) (by decide)

/-! ## Saying the same -/

/-- Two instructions have the same expanded form, wherever they are laid out. -/
def SaysSame (i' i : Instruction) : Prop :=
  i'.expanded.op = i.expanded.op ∧ i'.expanded.operand = i.expanded.operand

namespace SaysSame

theorem refl (i : Instruction) : SaysSame i i := ⟨rfl, rfl⟩

theorem symm {i i' : Instruction} (h : SaysSame i' i) : SaysSame i i' := ⟨h.1.symm, h.2.symm⟩

theorem trans {i i' i'' : Instruction} (h : SaysSame i'' i') (h' : SaysSame i' i) :
    SaysSame i'' i := ⟨h.1.trans h'.1, h.2.trans h'.2⟩

end SaysSame

theorem expanded_of_some (h : i.expandedForm? = some (op, operand)) :
    i.expanded = i.recode op operand := by
  unfold expanded; rw [h]

theorem expanded_of_none (h : i.expandedForm? = none) : i.expanded = i := by
  unfold expanded; rw [h]

theorem expandedForm?_expanded (i : Instruction) : i.expanded.expandedForm? = none := by
  cases h : i.expandedForm? with
  | none => rw [expanded_of_none h]; exact h
  | some form => rw [expanded_of_some h]; exact expandedForm?_of_expandedForm? h i.offset

theorem expanded_expanded (i : Instruction) : i.expanded.expanded = i.expanded :=
  expanded_of_none i.expandedForm?_expanded

theorem saysSame_expanded (i : Instruction) : SaysSame i.expanded i := by
  unfold SaysSame
  rw [expanded_expanded]
  exact ⟨rfl, rfl⟩

theorem saysSame_of_expandedForm? {i' : Instruction}
    (h : i'.expandedForm? = some (i.op, i.operand)) : SaysSame i' i := by
  have hnone : i.expandedForm? = none := expandedForm?_of_expandedForm? h i.offset
  unfold SaysSame
  rw [expanded_of_some h, expanded_of_none hnone]
  exact ⟨rfl, rfl⟩

theorem saysSame_compacted (i : Instruction) : SaysSame i.compacted i := by
  unfold compacted
  split
  · rename_i op operand h
    exact saysSame_of_expandedForm? ((compactedForm?_eq_some h).1 i.offset)
  · exact .refl i

theorem saysSame_shortened (i : Instruction) : SaysSame (MethodBody.shortened i) i := by
  unfold MethodBody.shortened
  split
  · rename_i short h
    exact saysSame_of_expandedForm?
      (expandedForm?_of_longBranch? (OpCode.longBranch?_of_shortBranch? h))
  · exact .refl i

theorem saysSame_offset (i : Instruction) (offset : UInt32) :
    SaysSame { i with offset := offset } i := by
  unfold SaysSame expanded
  have hform : expandedForm? { i with offset := offset } = i.expandedForm? := rfl
  rw [hform]
  cases i.expandedForm? <;> exact ⟨rfl, rfl⟩

/-! ## What a change of form keeps -/

theorem fits_expanded (hi : i.operand.fits i.op.operandKind = true) :
    i.expanded.operand.fits i.expanded.op.operandKind = true := by
  cases h : i.expandedForm? with
  | none => rw [expanded_of_none h]; exact hi
  | some form => rw [expanded_of_some h]; exact (widens_of_expandedForm? h).fits hi

theorem operandKind_expanded (i : Instruction) : i.expanded.op.operandKind ≠ .shortBranch := by
  intro hkind
  obtain ⟨long, hlong⟩ := OpCode.longBranch?_of_operandKind hkind
  have hsome := expandedForm?_of_longBranch? hlong
  rw [expandedForm?_expanded] at hsome
  cases hsome

theorem fits_compacted (hi : i.operand.fits i.op.operandKind = true) :
    i.compacted.operand.fits i.compacted.op.operandKind = true := by
  unfold compacted
  split
  · rename_i op operand h; exact (compactedForm?_eq_some h).2.1
  · exact hi

theorem operandKind_compacted (hi : i.op.operandKind ≠ .shortBranch) :
    i.compacted.op.operandKind ≠ .shortBranch := by
  unfold compacted
  split
  · rename_i op operand h; exact (compactedForm?_eq_some h).2.2
  · exact hi

theorem targets_compacted (i : Instruction) : i.compacted.targets = i.targets := by
  unfold compacted
  split
  · rename_i op operand h
    obtain ⟨hsame, hfits, -⟩ := compactedForm?_eq_some h
    exact ((widens_of_expandedForm? (hsame i.offset)).targets_eq hfits).symm
  · rfl

theorem local_of_compacted {index : UInt16} (h : i.compacted.operand = .local index) :
    i.operand = .local index := by
  unfold compacted at h
  split at h
  · rename_i op operand hform
    obtain ⟨hsame, hfits, -⟩ := compactedForm?_eq_some hform
    exact (widens_of_expandedForm? (hsame i.offset)).local_eq hfits h
  · exact h

theorem operand_shortened (i : Instruction) : (MethodBody.shortened i).operand = i.operand := by
  unfold MethodBody.shortened; split <;> rfl

theorem fits_shortened (hi : i.operand.fits i.op.operandKind = true) :
    (MethodBody.shortened i).operand.fits (MethodBody.shortened i).op.operandKind = true := by
  rw [operand_shortened]
  unfold MethodBody.shortened
  split
  · rename_i short h
    obtain ⟨hshort, hlong⟩ :=
      OpCode.operandKind_of_longBranch? (OpCode.longBranch?_of_shortBranch? h)
    rw [hlong] at hi
    simp only [hshort]
    cases ha : i.operand <;> simp_all [Operand.fits]
  · exact hi

theorem size_shortened_le (i : Instruction) : (MethodBody.shortened i).size ≤ i.size := by
  unfold MethodBody.shortened
  split
  · rename_i short h
    have hlong := OpCode.longBranch?_of_shortBranch? h
    obtain ⟨hshort, hkind⟩ := OpCode.operandKind_of_longBranch? hlong
    unfold size
    simp only [hshort, hkind, OperandKind.size?, OpCode.size_of_longBranch? hlong]
    unfold OpCode.size
    split <;> decide
  · exact UInt32.le_refl _

end Instruction

end CilWeave
