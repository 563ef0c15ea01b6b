import CilWeave.Edit
import CilWeave.TypeSig

/-
Instructions and their operands.

Branch targets are handles of instructions of the same list, and member
operands are tokens into the module's reference table. An instruction pairs any
opcode with any operand; `Instruction.checkOperand` says whether the two agree.
The offset is derived data: it means something only after the body has been laid
out.
-/

namespace CilWeave

/-- A constant inside an instruction. Floats are kept by their bits, so equal
immediates are the same constant bit for bit. -/
inductive Immediate where
  /-- A signed number of 8 bits. -/
  | int8 (value : Int8)
  /-- A signed number of 32 bits. -/
  | int32 (value : Int32)
  /-- A signed number of 64 bits. -/
  | int64 (value : Int64)
  /-- A float of 32 bits. -/
  | float32 (bits : UInt32)
  /-- A float of 64 bits. -/
  | float64 (bits : UInt64)
  deriving DecidableEq, Repr, Inhabited

/-- The operand of an instruction. -/
inductive Operand where
  /-- No operand. -/
  | none
  /-- A constant. -/
  | immediate (value : Immediate)
  /-- A string literal. -/
  | string (value : String)
  /-- A local variable. -/
  | local (index : UInt16)
  /-- An argument; `this` is argument zero of an instance method. -/
  | argument (index : UInt16)
  /-- A member of the reference table. -/
  | token (token : Token)
  /-- A type. -/
  | type (type : TypeSig)
  /-- A branch target. -/
  | target (id : InstrId)
  /-- A jump table. -/
  | switch (targets : List InstrId)
  deriving DecidableEq, Repr, Inhabited

namespace Operand

/-- What kind of operand it is, in words. -/
def kindName : Operand → String
  | .none => "no operand"
  | .immediate _ => "immediate"
  | .string _ => "string"
  | .local _ => "local"
  | .argument _ => "argument"
  | .token _ => "token"
  | .type _ => "type"
  | .target _ => "branch target"
  | .switch _ => "switch table"

def targets : Operand → List InstrId
  | .target id => [id]
  | .switch ids => ids
  | _ => []

def token? : Operand → Option Token
  | .token t => some t
  | _ => Option.none

def string? : Operand → Option String
  | .string s => some s
  | _ => Option.none

/-- Whether an opcode of this kind may carry the operand. The one-byte forms
reach the first 256 locals or arguments only. -/
def fits : OperandKind → Operand → Bool
  | .none, .none => true
  | .int8, .immediate (.int8 _) => true
  | .int32, .immediate (.int32 _) => true
  | .int64, .immediate (.int64 _) => true
  | .float32, .immediate (.float32 _) => true
  | .float64, .immediate (.float64 _) => true
  | .string, .string _ => true
  | .local, .local _ => true
  | .shortLocal, .local index => index ≤ 0xFF
  | .argument, .argument _ => true
  | .shortArgument, .argument index => index ≤ 0xFF
  | .method, .token _ | .field, .token _ | .signature, .token _ => true
  | .type, .type _ | .type, .token _ | .token, .type _ | .token, .token _ => true
  | .shortBranch, .target _ | .branch, .target _ => true
  | .switch, .switch _ => true
  | _, _ => false

/-- Whether two operands are equal, with floats compared as numbers: the two zeros are
equal, and what is no number equals nothing. -/
def sameValue : Operand → Operand → Bool
  | .immediate (.float32 a), .immediate (.float32 b) => Float32.ofBits a == Float32.ofBits b
  | .immediate (.float64 a), .immediate (.float64 b) => Float.ofBits a == Float.ofBits b
  | a, b => a == b

end Operand

/-- One instruction of a method body. -/
structure Instruction where
  /-- The opcode. -/
  op : OpCode
  /-- The operand. -/
  operand : Operand
  /-- The offset in bytes, once the body is laid out. -/
  offset : UInt32
  deriving DecidableEq, Repr, Inhabited

namespace Instruction

/-- An instruction that is not laid out yet. -/
def of (op : OpCode) (operand : Operand) : Instruction := ⟨op, operand, 0⟩

def plain (op : OpCode) : Instruction := of op .none

def ldstr (value : String) : Instruction := of .ldstr (.string value)

def call (method : Token) : Instruction := of .call (.token method)

def callvirt (method : Token) : Instruction := of .callvirt (.token method)

def ldarg (index : UInt16) : Instruction := of .ldarg (.argument index)

def ldloc (index : UInt16) : Instruction := of .ldloc (.local index)

def ldloca (index : UInt16) : Instruction := of .ldloca (.local index)

def stloc (index : UInt16) : Instruction := of .stloc (.local index)

def branch (op : OpCode) (target : InstrId) : Instruction := of op (.target target)

def token? (i : Instruction) : Option Token := i.operand.token?

def string? (i : Instruction) : Option String := i.operand.string?

def targets (i : Instruction) : List InstrId := i.operand.targets

/-- Encoded bytes of the instruction, in arithmetic of 32 bits. A jump table takes its
count and four bytes a target, and where that is too much it wraps around. -/
def size (i : Instruction) : UInt32 :=
  let operand :=
    match i.op.operandKind.size?, i.operand with
    | some n, _ => n
    | none, .switch ids => 4 + 4 * UInt32.ofNat ids.length
    | none, _ => 4
  i.op.size + operand

/-- The instruction with another opcode and operand, at the same offset. -/
def recode (i : Instruction) (op : OpCode) (operand : Operand) : Instruction :=
  { i with op, operand }

/-- Succeeds exactly if opcode and operand agree. -/
def checkOperand (i : Instruction) : Except Error Unit :=
  if i.operand.fits i.op.operandKind then .ok ()
  else .error (.invalidOperand i.op i.op.operandKind.expectation)

end Instruction

end CilWeave
