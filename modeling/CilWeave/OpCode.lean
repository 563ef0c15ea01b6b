/-
The opcode table of the intermediate language (ECMA-335 Partition III).

Every opcode the library understands is a constructor of `OpCode`; its row in
`OpCode.info` holds the mnemonic, the encoding, the operand it carries, how it
moves control and what it does to the evaluation stack. That is all the
normaliser and the stack analysis need. An opcode that is valid but absent from
the table (`conv.ovf.*`, `mkrefany`, `ckfinite`, ...) has no value of this type,
so it cannot occur in a method body.

The long and short forms of a branch are paired by `OpCode.longBranch?` and
`OpCode.shortBranch?`; the lemmas at the end say that the two undo each other.
-/

namespace CilWeave

/-- The operand an opcode carries. -/
inductive OperandKind where
  /-- No operand. -/
  | none
  /-- Signed 8-bit immediate (`ldc.i4.s`). -/
  | int8
  /-- Signed 32-bit immediate. -/
  | int32
  /-- Signed 64-bit immediate. -/
  | int64
  /-- A float immediate of 32 bits. -/
  | float32
  /-- A float immediate of 64 bits. -/
  | float64
  /-- User string. -/
  | string
  /-- Local variable index in one byte. -/
  | shortLocal
  /-- Local variable index in two bytes. -/
  | local
  /-- Argument index in one byte. -/
  | shortArgument
  /-- Argument index in two bytes. -/
  | argument
  /-- Method reference token. -/
  | method
  /-- Field reference token. -/
  | field
  /-- Type reference. -/
  | type
  /-- Any metadata token (`ldtoken`). -/
  | token
  /-- Stand-alone signature (`calli`). -/
  | signature
  /-- Branch target with a displacement of one byte. -/
  | shortBranch
  /-- Branch target with a displacement of four bytes. -/
  | branch
  /-- Jump table. -/
  | switch
  deriving DecidableEq, Repr, Inhabited

namespace OperandKind

/-- Encoded bytes of an operand of this kind; a jump table has no fixed size. -/
def size? : OperandKind → Option UInt32
  | .none => some 0
  | .int8 | .shortLocal | .shortArgument | .shortBranch => some 1
  | .local | .argument => some 2
  | .int32 | .float32 | .string | .method | .field | .type | .token | .signature
  | .branch => some 4
  | .int64 | .float64 => some 8
  | .switch => Option.none

/-- The name of the kind. -/
def name : OperandKind → String
  | .none => "None"
  | .int8 => "Int8"
  | .int32 => "Int32"
  | .int64 => "Int64"
  | .float32 => "Float32"
  | .float64 => "Float64"
  | .string => "String"
  | .shortLocal => "ShortLocal"
  | .local => "Local"
  | .shortArgument => "ShortArgument"
  | .argument => "Argument"
  | .method => "Method"
  | .field => "Field"
  | .type => "Type"
  | .token => "Token"
  | .signature => "Signature"
  | .shortBranch => "ShortBranch"
  | .branch => "Branch"
  | .switch => "Switch"

/-- What an operand of this kind is called when another one was found. -/
def expectation : OperandKind → String
  | .none => "no operand"
  | .int8 => "int8 immediate"
  | .int32 => "int32 immediate"
  | .int64 => "int64 immediate"
  | .float32 => "float32 immediate"
  | .float64 => "float64 immediate"
  | .string => "string"
  | .shortLocal => "local index below 256"
  | .local => "local index"
  | .shortArgument => "argument index below 256"
  | .argument => "argument index"
  | .method => "method token"
  | .field => "field token"
  | .type | .token => "type or token"
  | .signature => "signature token"
  | .shortBranch | .branch => "branch target"
  | .switch => "switch table"

end OperandKind

/-- How an instruction moves control. -/
inductive Flow where
  /-- On to the next instruction. -/
  | sequential
  /-- To the target or on to the next instruction. -/
  | conditionalBranch
  /-- To the target. -/
  | unconditionalBranch
  /-- Through another method and on to the next instruction. -/
  | call
  /-- Out of the method. -/
  | return
  /-- To one of several targets or on to the next instruction. -/
  | switch
  /-- Out by an exception. -/
  | throw
  /-- Out of a finally, fault or filter block. -/
  | endFinally
  /-- Out of a protected region, to the target, with an empty stack. -/
  | leave
  deriving DecidableEq, Repr, Inhabited

def Flow.name : Flow → String
  | .sequential => "Sequential"
  | .conditionalBranch => "ConditionalBranch"
  | .unconditionalBranch => "UnconditionalBranch"
  | .call => "Call"
  | .return => "Return"
  | .switch => "Switch"
  | .throw => "Throw"
  | .endFinally => "EndFinally"
  | .leave => "Leave"

/-- What an instruction does to the evaluation stack. -/
inductive StackEffect where
  /-- Pops and pushes fixed numbers of values. -/
  | fixed (pops pushes : Nat)
  /-- Decided by the signature of the called method. -/
  | call
  /-- Pops the constructor's arguments and pushes the new object. -/
  | newObj
  /-- Pops the return value of the current method, if it has one. -/
  | return
  /-- Not modelled (`calli`, `jmp`). -/
  | unsupported
  deriving DecidableEq, Repr, Inhabited

/-- An opcode. -/
inductive OpCode where
  | nop | breakpoint | ldarg0 | ldarg1 | ldarg2 | ldarg3 | ldloc0 | ldloc1 | ldloc2 | ldloc3
  | stloc0 | stloc1 | stloc2 | stloc3 | ldargS | ldargaS | stargS | ldlocS | ldlocaS | stlocS
  | ldnull | ldcI4M1 | ldcI40 | ldcI41 | ldcI42 | ldcI43 | ldcI44 | ldcI45 | ldcI46 | ldcI47
  | ldcI48 | ldcI4S | ldcI4 | ldcI8 | ldcR4 | ldcR8 | dup | pop | jmp | call | calli | ret | brS
  | brfalseS | brtrueS | beqS | bgeS | bgtS | bleS | bltS | bneUnS | bgeUnS | bgtUnS | bleUnS
  | bltUnS | br | brfalse | brtrue | beq | bge | bgt | ble | blt | bneUn | bgeUn | bgtUn | bleUn
  | bltUn | switch | ldindI1 | ldindU1 | ldindI2 | ldindU2 | ldindI4 | ldindU4 | ldindI8
  | ldindI | ldindR4 | ldindR8 | ldindRef | stindRef | stindI1 | stindI2 | stindI4 | stindI8
  | stindR4 | stindR8 | add | sub | mul | div | divUn | rem | remUn | and | or | xor | shl | shr
  | shrUn | neg | not | convI1 | convI2 | convI4 | convI8 | convR4 | convR8 | convU4 | convU8
  | callvirt | cpobj | ldobj | ldstr | newobj | castclass | isinst | convRUn | unbox | throw
  | ldfld | ldflda | stfld | ldsfld | ldsflda | stsfld | stobj | box | newarr | ldlen | ldelema
  | ldelemI1 | ldelemU1 | ldelemI2 | ldelemU2 | ldelemI4 | ldelemU4 | ldelemI8 | ldelemI
  | ldelemR4 | ldelemR8 | ldelemRef | stelemI | stelemI1 | stelemI2 | stelemI4 | stelemI8
  | stelemR4 | stelemR8 | stelemRef | ldelem | stelem | unboxAny | ldtoken | convU2 | convU1
  | convI | endfinally | leave | leaveS | stindI | convU | arglist | ceq | cgt | cgtUn | clt
  | cltUn | ldftn | ldvirtftn | ldarg | ldarga | starg | ldloc | ldloca | stloc | localloc
  | endfilter | initobj | rethrow | sizeof
  deriving DecidableEq, Repr, Inhabited

/-- One row of the opcode table. -/
structure OpCodeInfo where
  /-- Name of the opcode in a module document. -/
  name : String
  /-- The mnemonic, as a disassembler prints it. -/
  mnemonic : String
  /-- The encoded value; two-byte opcodes start with `0xFE`. -/
  value : UInt16
  /-- The operand the opcode carries. -/
  operand : OperandKind
  /-- How it moves control. -/
  flow : Flow
  /-- What it does to the stack. -/
  stack : StackEffect
  deriving Repr

namespace OpCode

/-- The opcodes in table order. -/
def all : List OpCode := [
    .nop, .breakpoint, .ldarg0, .ldarg1, .ldarg2, .ldarg3, .ldloc0, .ldloc1, .ldloc2, .ldloc3,
    .stloc0, .stloc1, .stloc2, .stloc3, .ldargS, .ldargaS, .stargS, .ldlocS, .ldlocaS, .stlocS,
    .ldnull, .ldcI4M1, .ldcI40, .ldcI41, .ldcI42, .ldcI43, .ldcI44, .ldcI45, .ldcI46, .ldcI47,
    .ldcI48, .ldcI4S, .ldcI4, .ldcI8, .ldcR4, .ldcR8, .dup, .pop, .jmp, .call, .calli, .ret,
    .brS, .brfalseS, .brtrueS, .beqS, .bgeS, .bgtS, .bleS, .bltS, .bneUnS, .bgeUnS, .bgtUnS,
    .bleUnS, .bltUnS, .br, .brfalse, .brtrue, .beq, .bge, .bgt, .ble, .blt, .bneUn, .bgeUn,
    .bgtUn, .bleUn, .bltUn, .switch, .ldindI1, .ldindU1, .ldindI2, .ldindU2, .ldindI4, .ldindU4,
    .ldindI8, .ldindI, .ldindR4, .ldindR8, .ldindRef, .stindRef, .stindI1, .stindI2, .stindI4,
    .stindI8, .stindR4, .stindR8, .add, .sub, .mul, .div, .divUn, .rem, .remUn, .and, .or, .xor,
    .shl, .shr, .shrUn, .neg, .not, .convI1, .convI2, .convI4, .convI8, .convR4, .convR8,
    .convU4, .convU8, .callvirt, .cpobj, .ldobj, .ldstr, .newobj, .castclass, .isinst, .convRUn,
    .unbox, .throw, .ldfld, .ldflda, .stfld, .ldsfld, .ldsflda, .stsfld, .stobj, .box, .newarr,
    .ldlen, .ldelema, .ldelemI1, .ldelemU1, .ldelemI2, .ldelemU2, .ldelemI4, .ldelemU4,
    .ldelemI8, .ldelemI, .ldelemR4, .ldelemR8, .ldelemRef, .stelemI, .stelemI1, .stelemI2,
    .stelemI4, .stelemI8, .stelemR4, .stelemR8, .stelemRef, .ldelem, .stelem, .unboxAny,
    .ldtoken, .convU2, .convU1, .convI, .endfinally, .leave, .leaveS, .stindI, .convU, .arglist,
    .ceq, .cgt, .cgtUn, .clt, .cltUn, .ldftn, .ldvirtftn, .ldarg, .ldarga, .starg, .ldloc,
    .ldloca, .stloc, .localloc, .endfilter, .initobj, .rethrow, .sizeof]

/-- The row of an opcode. -/
def info : OpCode → OpCodeInfo
  | .nop => ⟨"Nop", "nop", 0x00, .none, .sequential, (.fixed 0 0)⟩
  | .breakpoint => ⟨"Break", "break", 0x01, .none, .sequential, (.fixed 0 0)⟩
  | .ldarg0 => ⟨"Ldarg0", "ldarg.0", 0x02, .none, .sequential, (.fixed 0 1)⟩
  | .ldarg1 => ⟨"Ldarg1", "ldarg.1", 0x03, .none, .sequential, (.fixed 0 1)⟩
  | .ldarg2 => ⟨"Ldarg2", "ldarg.2", 0x04, .none, .sequential, (.fixed 0 1)⟩
  | .ldarg3 => ⟨"Ldarg3", "ldarg.3", 0x05, .none, .sequential, (.fixed 0 1)⟩
  | .ldloc0 => ⟨"Ldloc0", "ldloc.0", 0x06, .none, .sequential, (.fixed 0 1)⟩
  | .ldloc1 => ⟨"Ldloc1", "ldloc.1", 0x07, .none, .sequential, (.fixed 0 1)⟩
  | .ldloc2 => ⟨"Ldloc2", "ldloc.2", 0x08, .none, .sequential, (.fixed 0 1)⟩
  | .ldloc3 => ⟨"Ldloc3", "ldloc.3", 0x09, .none, .sequential, (.fixed 0 1)⟩
  | .stloc0 => ⟨"Stloc0", "stloc.0", 0x0A, .none, .sequential, (.fixed 1 0)⟩
  | .stloc1 => ⟨"Stloc1", "stloc.1", 0x0B, .none, .sequential, (.fixed 1 0)⟩
  | .stloc2 => ⟨"Stloc2", "stloc.2", 0x0C, .none, .sequential, (.fixed 1 0)⟩
  | .stloc3 => ⟨"Stloc3", "stloc.3", 0x0D, .none, .sequential, (.fixed 1 0)⟩
  | .ldargS => ⟨"LdargS", "ldarg.s", 0x0E, .shortArgument, .sequential, (.fixed 0 1)⟩
  | .ldargaS => ⟨"LdargaS", "ldarga.s", 0x0F, .shortArgument, .sequential, (.fixed 0 1)⟩
  | .stargS => ⟨"StargS", "starg.s", 0x10, .shortArgument, .sequential, (.fixed 1 0)⟩
  | .ldlocS => ⟨"LdlocS", "ldloc.s", 0x11, .shortLocal, .sequential, (.fixed 0 1)⟩
  | .ldlocaS => ⟨"LdlocaS", "ldloca.s", 0x12, .shortLocal, .sequential, (.fixed 0 1)⟩
  | .stlocS => ⟨"StlocS", "stloc.s", 0x13, .shortLocal, .sequential, (.fixed 1 0)⟩
  | .ldnull => ⟨"Ldnull", "ldnull", 0x14, .none, .sequential, (.fixed 0 1)⟩
  | .ldcI4M1 => ⟨"LdcI4M1", "ldc.i4.m1", 0x15, .none, .sequential, (.fixed 0 1)⟩
  | .ldcI40 => ⟨"LdcI40", "ldc.i4.0", 0x16, .none, .sequential, (.fixed 0 1)⟩
  | .ldcI41 => ⟨"LdcI41", "ldc.i4.1", 0x17, .none, .sequential, (.fixed 0 1)⟩
  | .ldcI42 => ⟨"LdcI42", "ldc.i4.2", 0x18, .none, .sequential, (.fixed 0 1)⟩
  | .ldcI43 => ⟨"LdcI43", "ldc.i4.3", 0x19, .none, .sequential, (.fixed 0 1)⟩
  | .ldcI44 => ⟨"LdcI44", "ldc.i4.4", 0x1A, .none, .sequential, (.fixed 0 1)⟩
  | .ldcI45 => ⟨"LdcI45", "ldc.i4.5", 0x1B, .none, .sequential, (.fixed 0 1)⟩
  | .ldcI46 => ⟨"LdcI46", "ldc.i4.6", 0x1C, .none, .sequential, (.fixed 0 1)⟩
  | .ldcI47 => ⟨"LdcI47", "ldc.i4.7", 0x1D, .none, .sequential, (.fixed 0 1)⟩
  | .ldcI48 => ⟨"LdcI48", "ldc.i4.8", 0x1E, .none, .sequential, (.fixed 0 1)⟩
  | .ldcI4S => ⟨"LdcI4S", "ldc.i4.s", 0x1F, .int8, .sequential, (.fixed 0 1)⟩
  | .ldcI4 => ⟨"LdcI4", "ldc.i4", 0x20, .int32, .sequential, (.fixed 0 1)⟩
  | .ldcI8 => ⟨"LdcI8", "ldc.i8", 0x21, .int64, .sequential, (.fixed 0 1)⟩
  | .ldcR4 => ⟨"LdcR4", "ldc.r4", 0x22, .float32, .sequential, (.fixed 0 1)⟩
  | .ldcR8 => ⟨"LdcR8", "ldc.r8", 0x23, .float64, .sequential, (.fixed 0 1)⟩
  | .dup => ⟨"Dup", "dup", 0x25, .none, .sequential, (.fixed 1 2)⟩
  | .pop => ⟨"Pop", "pop", 0x26, .none, .sequential, (.fixed 1 0)⟩
  | .jmp => ⟨"Jmp", "jmp", 0x27, .method, .call, .unsupported⟩
  | .call => ⟨"Call", "call", 0x28, .method, .call, .call⟩
  | .calli => ⟨"Calli", "calli", 0x29, .signature, .call, .unsupported⟩
  | .ret => ⟨"Ret", "ret", 0x2A, .none, .return, .return⟩
  | .brS => ⟨"BrS", "br.s", 0x2B, .shortBranch, .unconditionalBranch, (.fixed 0 0)⟩
  | .brfalseS => ⟨"BrfalseS", "brfalse.s", 0x2C, .shortBranch, .conditionalBranch, (.fixed 1 0)⟩
  | .brtrueS => ⟨"BrtrueS", "brtrue.s", 0x2D, .shortBranch, .conditionalBranch, (.fixed 1 0)⟩
  | .beqS => ⟨"BeqS", "beq.s", 0x2E, .shortBranch, .conditionalBranch, (.fixed 2 0)⟩
  | .bgeS => ⟨"BgeS", "bge.s", 0x2F, .shortBranch, .conditionalBranch, (.fixed 2 0)⟩
  | .bgtS => ⟨"BgtS", "bgt.s", 0x30, .shortBranch, .conditionalBranch, (.fixed 2 0)⟩
  | .bleS => ⟨"BleS", "ble.s", 0x31, .shortBranch, .conditionalBranch, (.fixed 2 0)⟩
  | .bltS => ⟨"BltS", "blt.s", 0x32, .shortBranch, .conditionalBranch, (.fixed 2 0)⟩
  | .bneUnS => ⟨"BneUnS", "bne.un.s", 0x33, .shortBranch, .conditionalBranch, (.fixed 2 0)⟩
  | .bgeUnS => ⟨"BgeUnS", "bge.un.s", 0x34, .shortBranch, .conditionalBranch, (.fixed 2 0)⟩
  | .bgtUnS => ⟨"BgtUnS", "bgt.un.s", 0x35, .shortBranch, .conditionalBranch, (.fixed 2 0)⟩
  | .bleUnS => ⟨"BleUnS", "ble.un.s", 0x36, .shortBranch, .conditionalBranch, (.fixed 2 0)⟩
  | .bltUnS => ⟨"BltUnS", "blt.un.s", 0x37, .shortBranch, .conditionalBranch, (.fixed 2 0)⟩
  | .br => ⟨"Br", "br", 0x38, .branch, .unconditionalBranch, (.fixed 0 0)⟩
  | .brfalse => ⟨"Brfalse", "brfalse", 0x39, .branch, .conditionalBranch, (.fixed 1 0)⟩
  | .brtrue => ⟨"Brtrue", "brtrue", 0x3A, .branch, .conditionalBranch, (.fixed 1 0)⟩
  | .beq => ⟨"Beq", "beq", 0x3B, .branch, .conditionalBranch, (.fixed 2 0)⟩
  | .bge => ⟨"Bge", "bge", 0x3C, .branch, .conditionalBranch, (.fixed 2 0)⟩
  | .bgt => ⟨"Bgt", "bgt", 0x3D, .branch, .conditionalBranch, (.fixed 2 0)⟩
  | .ble => ⟨"Ble", "ble", 0x3E, .branch, .conditionalBranch, (.fixed 2 0)⟩
  | .blt => ⟨"Blt", "blt", 0x3F, .branch, .conditionalBranch, (.fixed 2 0)⟩
  | .bneUn => ⟨"BneUn", "bne.un", 0x40, .branch, .conditionalBranch, (.fixed 2 0)⟩
  | .bgeUn => ⟨"BgeUn", "bge.un", 0x41, .branch, .conditionalBranch, (.fixed 2 0)⟩
  | .bgtUn => ⟨"BgtUn", "bgt.un", 0x42, .branch, .conditionalBranch, (.fixed 2 0)⟩
  | .bleUn => ⟨"BleUn", "ble.un", 0x43, .branch, .conditionalBranch, (.fixed 2 0)⟩
  | .bltUn => ⟨"BltUn", "blt.un", 0x44, .branch, .conditionalBranch, (.fixed 2 0)⟩
  | .switch => ⟨"Switch", "switch", 0x45, .switch, .switch, (.fixed 1 0)⟩
  | .ldindI1 => ⟨"LdindI1", "ldind.i1", 0x46, .none, .sequential, (.fixed 1 1)⟩
  | .ldindU1 => ⟨"LdindU1", "ldind.u1", 0x47, .none, .sequential, (.fixed 1 1)⟩
  | .ldindI2 => ⟨"LdindI2", "ldind.i2", 0x48, .none, .sequential, (.fixed 1 1)⟩
  | .ldindU2 => ⟨"LdindU2", "ldind.u2", 0x49, .none, .sequential, (.fixed 1 1)⟩
  | .ldindI4 => ⟨"LdindI4", "ldind.i4", 0x4A, .none, .sequential, (.fixed 1 1)⟩
  | .ldindU4 => ⟨"LdindU4", "ldind.u4", 0x4B, .none, .sequential, (.fixed 1 1)⟩
  | .ldindI8 => ⟨"LdindI8", "ldind.i8", 0x4C, .none, .sequential, (.fixed 1 1)⟩
  | .ldindI => ⟨"LdindI", "ldind.i", 0x4D, .none, .sequential, (.fixed 1 1)⟩
  | .ldindR4 => ⟨"LdindR4", "ldind.r4", 0x4E, .none, .sequential, (.fixed 1 1)⟩
  | .ldindR8 => ⟨"LdindR8", "ldind.r8", 0x4F, .none, .sequential, (.fixed 1 1)⟩
  | .ldindRef => ⟨"LdindRef", "ldind.ref", 0x50, .none, .sequential, (.fixed 1 1)⟩
  | .stindRef => ⟨"StindRef", "stind.ref", 0x51, .none, .sequential, (.fixed 2 0)⟩
  | .stindI1 => ⟨"StindI1", "stind.i1", 0x52, .none, .sequential, (.fixed 2 0)⟩
  | .stindI2 => ⟨"StindI2", "stind.i2", 0x53, .none, .sequential, (.fixed 2 0)⟩
  | .stindI4 => ⟨"StindI4", "stind.i4", 0x54, .none, .sequential, (.fixed 2 0)⟩
  | .stindI8 => ⟨"StindI8", "stind.i8", 0x55, .none, .sequential, (.fixed 2 0)⟩
  | .stindR4 => ⟨"StindR4", "stind.r4", 0x56, .none, .sequential, (.fixed 2 0)⟩
  | .stindR8 => ⟨"StindR8", "stind.r8", 0x57, .none, .sequential, (.fixed 2 0)⟩
  | .add => ⟨"Add", "add", 0x58, .none, .sequential, (.fixed 2 1)⟩
  | .sub => ⟨"Sub", "sub", 0x59, .none, .sequential, (.fixed 2 1)⟩
  | .mul => ⟨"Mul", "mul", 0x5A, .none, .sequential, (.fixed 2 1)⟩
  | .div => ⟨"Div", "div", 0x5B, .none, .sequential, (.fixed 2 1)⟩
  | .divUn => ⟨"DivUn", "div.un", 0x5C, .none, .sequential, (.fixed 2 1)⟩
  | .rem => ⟨"Rem", "rem", 0x5D, .none, .sequential, (.fixed 2 1)⟩
  | .remUn => ⟨"RemUn", "rem.un", 0x5E, .none, .sequential, (.fixed 2 1)⟩
  | .and => ⟨"And", "and", 0x5F, .none, .sequential, (.fixed 2 1)⟩
  | .or => ⟨"Or", "or", 0x60, .none, .sequential, (.fixed 2 1)⟩
  | .xor => ⟨"Xor", "xor", 0x61, .none, .sequential, (.fixed 2 1)⟩
  | .shl => ⟨"Shl", "shl", 0x62, .none, .sequential, (.fixed 2 1)⟩
  | .shr => ⟨"Shr", "shr", 0x63, .none, .sequential, (.fixed 2 1)⟩
  | .shrUn => ⟨"ShrUn", "shr.un", 0x64, .none, .sequential, (.fixed 2 1)⟩
  | .neg => ⟨"Neg", "neg", 0x65, .none, .sequential, (.fixed 1 1)⟩
  | .not => ⟨"Not", "not", 0x66, .none, .sequential, (.fixed 1 1)⟩
  | .convI1 => ⟨"ConvI1", "conv.i1", 0x67, .none, .sequential, (.fixed 1 1)⟩
  | .convI2 => ⟨"ConvI2", "conv.i2", 0x68, .none, .sequential, (.fixed 1 1)⟩
  | .convI4 => ⟨"ConvI4", "conv.i4", 0x69, .none, .sequential, (.fixed 1 1)⟩
  | .convI8 => ⟨"ConvI8", "conv.i8", 0x6A, .none, .sequential, (.fixed 1 1)⟩
  | .convR4 => ⟨"ConvR4", "conv.r4", 0x6B, .none, .sequential, (.fixed 1 1)⟩
  | .convR8 => ⟨"ConvR8", "conv.r8", 0x6C, .none, .sequential, (.fixed 1 1)⟩
  | .convU4 => ⟨"ConvU4", "conv.u4", 0x6D, .none, .sequential, (.fixed 1 1)⟩
  | .convU8 => ⟨"ConvU8", "conv.u8", 0x6E, .none, .sequential, (.fixed 1 1)⟩
  | .callvirt => ⟨"Callvirt", "callvirt", 0x6F, .method, .call, .call⟩
  | .cpobj => ⟨"Cpobj", "cpobj", 0x70, .type, .sequential, (.fixed 2 0)⟩
  | .ldobj => ⟨"Ldobj", "ldobj", 0x71, .type, .sequential, (.fixed 1 1)⟩
  | .ldstr => ⟨"Ldstr", "ldstr", 0x72, .string, .sequential, (.fixed 0 1)⟩
  | .newobj => ⟨"Newobj", "newobj", 0x73, .method, .call, .newObj⟩
  | .castclass => ⟨"Castclass", "castclass", 0x74, .type, .sequential, (.fixed 1 1)⟩
  | .isinst => ⟨"Isinst", "isinst", 0x75, .type, .sequential, (.fixed 1 1)⟩
  | .convRUn => ⟨"ConvRUn", "conv.r.un", 0x76, .none, .sequential, (.fixed 1 1)⟩
  | .unbox => ⟨"Unbox", "unbox", 0x79, .type, .sequential, (.fixed 1 1)⟩
  | .throw => ⟨"Throw", "throw", 0x7A, .none, .throw, (.fixed 1 0)⟩
  | .ldfld => ⟨"Ldfld", "ldfld", 0x7B, .field, .sequential, (.fixed 1 1)⟩
  | .ldflda => ⟨"Ldflda", "ldflda", 0x7C, .field, .sequential, (.fixed 1 1)⟩
  | .stfld => ⟨"Stfld", "stfld", 0x7D, .field, .sequential, (.fixed 2 0)⟩
  | .ldsfld => ⟨"Ldsfld", "ldsfld", 0x7E, .field, .sequential, (.fixed 0 1)⟩
  | .ldsflda => ⟨"Ldsflda", "ldsflda", 0x7F, .field, .sequential, (.fixed 0 1)⟩
  | .stsfld => ⟨"Stsfld", "stsfld", 0x80, .field, .sequential, (.fixed 1 0)⟩
  | .stobj => ⟨"Stobj", "stobj", 0x81, .type, .sequential, (.fixed 2 0)⟩
  | .box => ⟨"Box", "box", 0x8C, .type, .sequential, (.fixed 1 1)⟩
  | .newarr => ⟨"Newarr", "newarr", 0x8D, .type, .sequential, (.fixed 1 1)⟩
  | .ldlen => ⟨"Ldlen", "ldlen", 0x8E, .none, .sequential, (.fixed 1 1)⟩
  | .ldelema => ⟨"Ldelema", "ldelema", 0x8F, .type, .sequential, (.fixed 2 1)⟩
  | .ldelemI1 => ⟨"LdelemI1", "ldelem.i1", 0x90, .none, .sequential, (.fixed 2 1)⟩
  | .ldelemU1 => ⟨"LdelemU1", "ldelem.u1", 0x91, .none, .sequential, (.fixed 2 1)⟩
  | .ldelemI2 => ⟨"LdelemI2", "ldelem.i2", 0x92, .none, .sequential, (.fixed 2 1)⟩
  | .ldelemU2 => ⟨"LdelemU2", "ldelem.u2", 0x93, .none, .sequential, (.fixed 2 1)⟩
  | .ldelemI4 => ⟨"LdelemI4", "ldelem.i4", 0x94, .none, .sequential, (.fixed 2 1)⟩
  | .ldelemU4 => ⟨"LdelemU4", "ldelem.u4", 0x95, .none, .sequential, (.fixed 2 1)⟩
  | .ldelemI8 => ⟨"LdelemI8", "ldelem.i8", 0x96, .none, .sequential, (.fixed 2 1)⟩
  | .ldelemI => ⟨"LdelemI", "ldelem.i", 0x97, .none, .sequential, (.fixed 2 1)⟩
  | .ldelemR4 => ⟨"LdelemR4", "ldelem.r4", 0x98, .none, .sequential, (.fixed 2 1)⟩
  | .ldelemR8 => ⟨"LdelemR8", "ldelem.r8", 0x99, .none, .sequential, (.fixed 2 1)⟩
  | .ldelemRef => ⟨"LdelemRef", "ldelem.ref", 0x9A, .none, .sequential, (.fixed 2 1)⟩
  | .stelemI => ⟨"StelemI", "stelem.i", 0x9B, .none, .sequential, (.fixed 3 0)⟩
  | .stelemI1 => ⟨"StelemI1", "stelem.i1", 0x9C, .none, .sequential, (.fixed 3 0)⟩
  | .stelemI2 => ⟨"StelemI2", "stelem.i2", 0x9D, .none, .sequential, (.fixed 3 0)⟩
  | .stelemI4 => ⟨"StelemI4", "stelem.i4", 0x9E, .none, .sequential, (.fixed 3 0)⟩
  | .stelemI8 => ⟨"StelemI8", "stelem.i8", 0x9F, .none, .sequential, (.fixed 3 0)⟩
  | .stelemR4 => ⟨"StelemR4", "stelem.r4", 0xA0, .none, .sequential, (.fixed 3 0)⟩
  | .stelemR8 => ⟨"StelemR8", "stelem.r8", 0xA1, .none, .sequential, (.fixed 3 0)⟩
  | .stelemRef => ⟨"StelemRef", "stelem.ref", 0xA2, .none, .sequential, (.fixed 3 0)⟩
  | .ldelem => ⟨"Ldelem", "ldelem", 0xA3, .type, .sequential, (.fixed 2 1)⟩
  | .stelem => ⟨"Stelem", "stelem", 0xA4, .type, .sequential, (.fixed 3 0)⟩
  | .unboxAny => ⟨"UnboxAny", "unbox.any", 0xA5, .type, .sequential, (.fixed 1 1)⟩
  | .ldtoken => ⟨"Ldtoken", "ldtoken", 0xD0, .token, .sequential, (.fixed 0 1)⟩
  | .convU2 => ⟨"ConvU2", "conv.u2", 0xD1, .none, .sequential, (.fixed 1 1)⟩
  | .convU1 => ⟨"ConvU1", "conv.u1", 0xD2, .none, .sequential, (.fixed 1 1)⟩
  | .convI => ⟨"ConvI", "conv.i", 0xD3, .none, .sequential, (.fixed 1 1)⟩
  | .endfinally => ⟨"Endfinally", "endfinally", 0xDC, .none, .endFinally, (.fixed 0 0)⟩
  | .leave => ⟨"Leave", "leave", 0xDD, .branch, .leave, (.fixed 0 0)⟩
  | .leaveS => ⟨"LeaveS", "leave.s", 0xDE, .shortBranch, .leave, (.fixed 0 0)⟩
  | .stindI => ⟨"StindI", "stind.i", 0xDF, .none, .sequential, (.fixed 2 0)⟩
  | .convU => ⟨"ConvU", "conv.u", 0xE0, .none, .sequential, (.fixed 1 1)⟩
  | .arglist => ⟨"Arglist", "arglist", 0xFE00, .none, .sequential, (.fixed 0 1)⟩
  | .ceq => ⟨"Ceq", "ceq", 0xFE01, .none, .sequential, (.fixed 2 1)⟩
  | .cgt => ⟨"Cgt", "cgt", 0xFE02, .none, .sequential, (.fixed 2 1)⟩
  | .cgtUn => ⟨"CgtUn", "cgt.un", 0xFE03, .none, .sequential, (.fixed 2 1)⟩
  | .clt => ⟨"Clt", "clt", 0xFE04, .none, .sequential, (.fixed 2 1)⟩
  | .cltUn => ⟨"CltUn", "clt.un", 0xFE05, .none, .sequential, (.fixed 2 1)⟩
  | .ldftn => ⟨"Ldftn", "ldftn", 0xFE06, .method, .sequential, (.fixed 0 1)⟩
  | .ldvirtftn => ⟨"Ldvirtftn", "ldvirtftn", 0xFE07, .method, .sequential, (.fixed 1 1)⟩
  | .ldarg => ⟨"Ldarg", "ldarg", 0xFE09, .argument, .sequential, (.fixed 0 1)⟩
  | .ldarga => ⟨"Ldarga", "ldarga", 0xFE0A, .argument, .sequential, (.fixed 0 1)⟩
  | .starg => ⟨"Starg", "starg", 0xFE0B, .argument, .sequential, (.fixed 1 0)⟩
  | .ldloc => ⟨"Ldloc", "ldloc", 0xFE0C, .local, .sequential, (.fixed 0 1)⟩
  | .ldloca => ⟨"Ldloca", "ldloca", 0xFE0D, .local, .sequential, (.fixed 0 1)⟩
  | .stloc => ⟨"Stloc", "stloc", 0xFE0E, .local, .sequential, (.fixed 1 0)⟩
  | .localloc => ⟨"Localloc", "localloc", 0xFE0F, .none, .sequential, (.fixed 1 1)⟩
  | .endfilter => ⟨"Endfilter", "endfilter", 0xFE11, .none, .endFinally, (.fixed 1 0)⟩
  | .initobj => ⟨"Initobj", "initobj", 0xFE15, .type, .sequential, (.fixed 1 0)⟩
  | .rethrow => ⟨"Rethrow", "rethrow", 0xFE1A, .none, .throw, (.fixed 0 0)⟩
  | .sizeof => ⟨"Sizeof", "sizeof", 0xFE1C, .type, .sequential, (.fixed 0 1)⟩

/-- The name of the opcode in a module document. -/
def name (op : OpCode) : String := op.info.name

/-- The mnemonic, for instance `ldc.i4.s`. -/
def mnemonic (op : OpCode) : String := op.info.mnemonic

def operandKind (op : OpCode) : OperandKind := op.info.operand

/-- How the opcode moves control. -/
def flow (op : OpCode) : Flow := op.info.flow

/-- Encoded bytes of the opcode itself: a value above `0xFF` takes two. -/
def size (op : OpCode) : UInt32 := if op.info.value > 0xFF then 2 else 1

def ofMnemonic? (mnemonic : String) : Option OpCode := all.find? (·.mnemonic == mnemonic)

def ofName? (name : String) : Option OpCode := all.find? (·.name == name)

def ofValue? (value : UInt16) : Option OpCode := all.find? (·.info.value == value)

/-- Whether the opcode sends control to explicit targets. -/
def isBranch (op : OpCode) : Bool :=
  match op.flow with
  | .conditionalBranch | .unconditionalBranch | .switch | .leave => true
  | _ => false

def isCall : OpCode → Bool
  | .call | .callvirt => true
  | _ => false

/-- The long form of a short branch. -/
def longBranch? : OpCode → Option OpCode
  | .brS => some .br
  | .brfalseS => some .brfalse
  | .brtrueS => some .brtrue
  | .beqS => some .beq
  | .bgeS => some .bge
  | .bgtS => some .bgt
  | .bleS => some .ble
  | .bltS => some .blt
  | .bneUnS => some .bneUn
  | .bgeUnS => some .bgeUn
  | .bgtUnS => some .bgtUn
  | .bleUnS => some .bleUn
  | .bltUnS => some .bltUn
  | .leaveS => some .leave
  | _ => none

/-- The short form of a long branch. -/
def shortBranch? : OpCode → Option OpCode
  | .br => some .brS
  | .brfalse => some .brfalseS
  | .brtrue => some .brtrueS
  | .beq => some .beqS
  | .bge => some .bgeS
  | .bgt => some .bgtS
  | .ble => some .bleS
  | .blt => some .bltS
  | .bneUn => some .bneUnS
  | .bgeUn => some .bgeUnS
  | .bgtUn => some .bgtUnS
  | .bleUn => some .bleUnS
  | .bltUn => some .bltUnS
  | .leave => some .leaveS
  | _ => none

/-! The two branch forms. -/

theorem longBranch?_of_shortBranch? {long short : OpCode}
    (h : long.shortBranch? = some short) : short.longBranch? = some long := by
  unfold shortBranch? at h
  split at h <;> cases h <;> rfl

end OpCode

end CilWeave
