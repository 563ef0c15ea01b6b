import CilWeave.Instruction

/-
The long and the short form of one instruction.

In its expanded form an instruction names its local or argument, its constant
and its branch target outright, so an edit never meets a limit of the encoding.
In its compacted form it takes the fewest bytes that say the same, branches
apart: how far a branch reaches depends on the layout of the whole body.
-/

namespace CilWeave

namespace Instruction

/-- Opcode and operand of `ldc.i4 value`. -/
private def ldcForm (value : Int32) : OpCode × Operand := (.ldcI4, .immediate (.int32 value))

/-- Opcode and operand of the expanded form, where it differs. -/
def expandedForm? (i : Instruction) : Option (OpCode × Operand) :=
  match i.op with
  | .ldarg0 => some (.ldarg, .argument 0)
  | .ldarg1 => some (.ldarg, .argument 1)
  | .ldarg2 => some (.ldarg, .argument 2)
  | .ldarg3 => some (.ldarg, .argument 3)
  | .ldargS => some (.ldarg, i.operand)
  | .ldargaS => some (.ldarga, i.operand)
  | .stargS => some (.starg, i.operand)
  | .ldloc0 => some (.ldloc, .local 0)
  | .ldloc1 => some (.ldloc, .local 1)
  | .ldloc2 => some (.ldloc, .local 2)
  | .ldloc3 => some (.ldloc, .local 3)
  | .ldlocS => some (.ldloc, i.operand)
  | .ldlocaS => some (.ldloca, i.operand)
  | .stloc0 => some (.stloc, .local 0)
  | .stloc1 => some (.stloc, .local 1)
  | .stloc2 => some (.stloc, .local 2)
  | .stloc3 => some (.stloc, .local 3)
  | .stlocS => some (.stloc, i.operand)
  | .ldcI4M1 => some (ldcForm (-1))
  | .ldcI40 => some (ldcForm 0)
  | .ldcI41 => some (ldcForm 1)
  | .ldcI42 => some (ldcForm 2)
  | .ldcI43 => some (ldcForm 3)
  | .ldcI44 => some (ldcForm 4)
  | .ldcI45 => some (ldcForm 5)
  | .ldcI46 => some (ldcForm 6)
  | .ldcI47 => some (ldcForm 7)
  | .ldcI48 => some (ldcForm 8)
  | .ldcI4S =>
    match i.operand with
    | .immediate (.int8 value) => some (ldcForm value.toInt32)
    | _ => none
  | op => op.longBranch?.map (·, i.operand)

def expanded (i : Instruction) : Instruction :=
  match i.expandedForm? with
  | some (op, operand) => i.recode op operand
  | none => i

/-- The form that takes its index in one byte, if the index allows. -/
private def byteForm? (op : OpCode) (operand : Operand) (index : UInt16) :
    Option (OpCode × Operand) :=
  if index ≤ 0xFF then some (op, operand) else none

/-- Opcode and operand of the compacted form, where it differs. -/
def compactedForm? (i : Instruction) : Option (OpCode × Operand) :=
  match i.op, i.operand with
  | .ldarg, .argument index =>
    if index = 0 then some (.ldarg0, .none)
    else if index = 1 then some (.ldarg1, .none)
    else if index = 2 then some (.ldarg2, .none)
    else if index = 3 then some (.ldarg3, .none)
    else byteForm? .ldargS i.operand index
  | .ldarga, .argument index => byteForm? .ldargaS i.operand index
  | .starg, .argument index => byteForm? .stargS i.operand index
  | .ldloc, .local index =>
    if index = 0 then some (.ldloc0, .none)
    else if index = 1 then some (.ldloc1, .none)
    else if index = 2 then some (.ldloc2, .none)
    else if index = 3 then some (.ldloc3, .none)
    else byteForm? .ldlocS i.operand index
  | .ldloca, .local index => byteForm? .ldlocaS i.operand index
  | .stloc, .local index =>
    if index = 0 then some (.stloc0, .none)
    else if index = 1 then some (.stloc1, .none)
    else if index = 2 then some (.stloc2, .none)
    else if index = 3 then some (.stloc3, .none)
    else byteForm? .stlocS i.operand index
  | .ldcI4, .immediate (.int32 value) =>
    if value = -1 then some (.ldcI4M1, .none)
    else if value = 0 then some (.ldcI40, .none)
    else if value = 1 then some (.ldcI41, .none)
    else if value = 2 then some (.ldcI42, .none)
    else if value = 3 then some (.ldcI43, .none)
    else if value = 4 then some (.ldcI44, .none)
    else if value = 5 then some (.ldcI45, .none)
    else if value = 6 then some (.ldcI46, .none)
    else if value = 7 then some (.ldcI47, .none)
    else if value = 8 then some (.ldcI48, .none)
    else if -128 ≤ value ∧ value ≤ 127 then some (.ldcI4S, .immediate (.int8 value.toInt8))
    else none
  | _, _ => none

def compacted (i : Instruction) : Instruction :=
  match i.compactedForm? with
  | some (op, operand) => i.recode op operand
  | none => i

end Instruction

end CilWeave
