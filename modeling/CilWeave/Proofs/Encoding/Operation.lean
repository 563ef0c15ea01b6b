import CilWeave.Proofs.Encoding.Recoding

/-
What an instruction does, whichever form it is written in.

`Instruction.operation?` reads opcode and operand as an operation: which argument or local
is used and how, which constant is pushed, on which condition control goes where. It is
written down opcode by opcode (`OpCode.reading`) from what they do and knows nothing of
expanded or compacted forms. Expanding keeps it (`operation?_expanded`), and an expanded
instruction has none of the opcodes that abbreviate another one
(`not_abbreviates_expanded`).
-/

namespace CilWeave

/-- What is done with an argument or a local. -/
inductive Use where
  /-- Its value is pushed. -/
  | load
  /-- It is set to the value that is popped. -/
  | store
  /-- Its address is pushed. -/
  | address
  deriving DecidableEq, Repr, Inhabited

/-- When a branch is taken. -/
inductive Condition where
  /-- Every time. -/
  | always
  /-- Every time, out of a protected region. -/
  | leaving
  | ifFalse | ifTrue | equal | greaterOrEqual | greater | lessOrEqual | less
  | notEqualUnsigned | greaterOrEqualUnsigned | greaterUnsigned | lessOrEqualUnsigned
  | lessUnsigned
  deriving DecidableEq, Repr, Inhabited

/-- What an instruction does. -/
inductive Operation where
  /-- It uses an argument. -/
  | argument (use : Use) (index : Nat)
  /-- It uses a local. -/
  | local (use : Use) (index : Nat)
  /-- It pushes a constant of 32 bits. -/
  | constant (value : Int)
  /-- It goes to the target if the condition holds. -/
  | branch (condition : Condition) (target : InstrId)
  /-- It does what the opcode says, with the operand. -/
  | plain (op : OpCode) (operand : Operand)
  deriving DecidableEq, Repr, Inhabited

/-- How an opcode is read; what it does not imply stands in the operand. -/
inductive Reading where
  /-- It uses an argument, perhaps an implied one. -/
  | argument (use : Use) (implied : Option Nat)
  /-- It uses a local, perhaps an implied one. -/
  | local (use : Use) (implied : Option Nat)
  /-- It pushes a constant, perhaps an implied one. -/
  | constant (implied : Option Int)
  /-- It is a branch. -/
  | branch (condition : Condition)
  /-- It is any other opcode. -/
  | plain
  deriving DecidableEq, Repr, Inhabited

/-- Whether an operand of this kind tells what the reading leaves open. -/
def Reading.takes : Reading → OperandKind → Bool
  | .argument _ (some _), .none | .local _ (some _), .none | .constant (some _), .none => true
  | .argument _ none, .argument | .argument _ none, .shortArgument => true
  | .local _ none, .local | .local _ none, .shortLocal => true
  | .constant none, .int8 | .constant none, .int32 => true
  | .branch _, .branch | .branch _, .shortBranch => true
  | .plain, _ => true
  | _, _ => false

namespace OpCode

/-- How an opcode is read. -/
def reading : OpCode → Reading
  | .ldarg0 => .argument .load (some 0)
  | .ldarg1 => .argument .load (some 1)
  | .ldarg2 => .argument .load (some 2)
  | .ldarg3 => .argument .load (some 3)
  | .ldarg | .ldargS => .argument .load none
  | .ldarga | .ldargaS => .argument .address none
  | .starg | .stargS => .argument .store none
  | .ldloc0 => .local .load (some 0)
  | .ldloc1 => .local .load (some 1)
  | .ldloc2 => .local .load (some 2)
  | .ldloc3 => .local .load (some 3)
  | .ldloc | .ldlocS => .local .load none
  | .ldloca | .ldlocaS => .local .address none
  | .stloc0 => .local .store (some 0)
  | .stloc1 => .local .store (some 1)
  | .stloc2 => .local .store (some 2)
  | .stloc3 => .local .store (some 3)
  | .stloc | .stlocS => .local .store none
  | .ldcI4M1 => .constant (some (-1))
  | .ldcI40 => .constant (some 0)
  | .ldcI41 => .constant (some 1)
  | .ldcI42 => .constant (some 2)
  | .ldcI43 => .constant (some 3)
  | .ldcI44 => .constant (some 4)
  | .ldcI45 => .constant (some 5)
  | .ldcI46 => .constant (some 6)
  | .ldcI47 => .constant (some 7)
  | .ldcI48 => .constant (some 8)
  | .ldcI4 | .ldcI4S => .constant none
  | .br | .brS => .branch .always
  | .leave | .leaveS => .branch .leaving
  | .brfalse | .brfalseS => .branch .ifFalse
  | .brtrue | .brtrueS => .branch .ifTrue
  | .beq | .beqS => .branch .equal
  | .bge | .bgeS => .branch .greaterOrEqual
  | .bgt | .bgtS => .branch .greater
  | .ble | .bleS => .branch .lessOrEqual
  | .blt | .bltS => .branch .less
  | .bneUn | .bneUnS => .branch .notEqualUnsigned
  | .bgeUn | .bgeUnS => .branch .greaterOrEqualUnsigned
  | .bgtUn | .bgtUnS => .branch .greaterUnsigned
  | .bleUn | .bleUnS => .branch .lessOrEqualUnsigned
  | .bltUn | .bltUnS => .branch .lessUnsigned
  | _ => .plain

theorem takes_operandKind (op : OpCode) : op.reading.takes op.operandKind = true := by
  cases op <;> rfl

theorem reading_of_longBranch? {short long : OpCode} (h : short.longBranch? = some long) :
    ∃ c, short.reading = .branch c ∧ long.reading = .branch c := by
  unfold longBranch? at h
  split at h <;> cases h <;> exact ⟨_, rfl, rfl⟩

/-- Whether the opcode says in less room what another one says: it implies its index or
constant, or has one byte for its operand. -/
def abbreviates : OpCode → Bool
  | .ldarg0 | .ldarg1 | .ldarg2 | .ldarg3 | .ldloc0 | .ldloc1 | .ldloc2 | .ldloc3
  | .stloc0 | .stloc1 | .stloc2 | .stloc3
  | .ldargS | .ldargaS | .stargS | .ldlocS | .ldlocaS | .stlocS
  | .ldcI4M1 | .ldcI40 | .ldcI41 | .ldcI42 | .ldcI43 | .ldcI44 | .ldcI45 | .ldcI46 | .ldcI47
  | .ldcI48 | .ldcI4S
  | .brS | .brfalseS | .brtrueS | .beqS | .bgeS | .bgtS | .bleS | .bltS | .bneUnS | .bgeUnS
  | .bgtUnS | .bleUnS | .bltUnS | .leaveS => true
  | _ => false

end OpCode

namespace Instruction

/-- What the instruction does, if it has the operand its opcode needs. -/
def operation? (i : Instruction) : Option Operation :=
  match i.op.reading, i.operand with
  | .argument use (some index), .none => some (.argument use index)
  | .argument use none, .argument index => some (.argument use index.toNat)
  | .local use (some index), .none => some (.local use index)
  | .local use none, .local index => some (.local use index.toNat)
  | .constant (some value), .none => some (.constant value)
  | .constant none, .immediate (.int8 value) => some (.constant value.toInt)
  | .constant none, .immediate (.int32 value) => some (.constant value.toInt)
  | .branch condition, .target target => some (.branch condition target)
  | .plain, operand => some (.plain i.op operand)
  | _, _ => none

variable {i i' : Instruction} {op : OpCode} {operand : Operand}

theorem operation?_isSome (hi : i.operand.fits i.op.operandKind = true) :
    ∃ operation, i.operation? = some operation := by
  have htakes := i.op.takes_operandKind
  unfold operation?
  generalize i.op.operandKind = kind at hi htakes
  generalize i.op.reading = reading at htakes ⊢
  unfold Reading.takes at htakes
  -- What the reading leaves open is in the operand, because the operand is of that kind.
  split at htakes
  case h_12 => exact ⟨_, rfl⟩
  case h_13 => cases htakes
  all_goals
    cases h : i.operand <;> rw [h] at hi <;>
      first
      | exact ⟨_, rfl⟩
      | cases hi
      | (rename_i value; cases value <;> first | exact ⟨_, rfl⟩ | cases hi)

theorem operation?_of_expandedForm? (h : i.expandedForm? = some (op, operand))
    (hi : i.operand.fits i.op.operandKind = true) (n : UInt32) :
    operation? ⟨op, operand, n⟩ = i.operation? := by
  obtain ⟨o, a, m⟩ := i
  unfold expandedForm? at h
  simp only at h hi
  split at h
  case h_30 =>
    obtain ⟨long, hlong, heq⟩ := Option.map_eq_some_iff.mp h
    cases heq
    obtain ⟨c, hshort, hlong⟩ := OpCode.reading_of_longBranch? hlong
    unfold operation?
    simp only [hshort, hlong]
    cases operand <;> rfl
  case h_29 =>
    split at h
    · cases h
      exact congrArg (fun v => some (Operation.constant v)) (Int8.toInt_toInt32 _)
    · cases h
  all_goals
    cases a <;> cases h <;> first | rfl | cases hi

/-- The expanded form of an instruction does what the instruction does. -/
theorem operation?_expanded (hi : i.operand.fits i.op.operandKind = true) :
    i.expanded.operation? = i.operation? := by
  cases h : i.expandedForm? with
  | none => rw [expanded_of_none h]
  | some form => rw [expanded_of_some h]; exact operation?_of_expandedForm? h hi i.offset

theorem expandedForm?_of_abbreviates (h : i.op.abbreviates = true)
    (hi : i.operand.fits i.op.operandKind = true) : ∃ form, i.expandedForm? = some form := by
  obtain ⟨op, operand, n⟩ := i
  unfold OpCode.abbreviates at h
  simp only at h hi
  split at h
  case h_29 =>
    -- The constant in one byte is the only form that looks at its operand.
    cases operand with
    | immediate value => cases value <;> first | exact ⟨_, rfl⟩ | cases hi
    | none | string | «local» | argument | token | type | target | «switch» => cases hi
  all_goals first | exact ⟨_, rfl⟩ | cases h

/-- No abbreviation is left in an expanded form. -/
theorem not_abbreviates_expanded (hi : i.operand.fits i.op.operandKind = true) :
    i.expanded.op.abbreviates = false := by
  refine Bool.eq_false_iff.mpr fun h => ?_
  obtain ⟨form, hform⟩ := expandedForm?_of_abbreviates h (fits_expanded hi)
  rw [expandedForm?_expanded] at hform
  cases hform

end Instruction

end CilWeave
