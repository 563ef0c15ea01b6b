import CilWeave.Body
import CilWeave.Document.Members

/-
The document form of instructions, handlers and method bodies.

An instruction list is written with its links, detached slots included, and is
refused if the links are not those of one chain. A float that is not finite has
no document form: it is written as `null`, which no reader takes for a number.
-/

namespace CilWeave

open Document

def FlagNames.toJson (flags : FlagNames) (bits : Nat) : Json := .string (flags.write bits)

def FlagNames.ofJson (flags : FlagNames) (j : Json) : Read Nat := do
  orMisshapen (flags.read? (← string j))

def OpCode.toJson (op : OpCode) : Json := .string op.name

def OpCode.ofJson (j : Json) : Read OpCode := do
  let (name, value) ← form j
  match OpCode.ofName? name with
  | some op => bare op value
  | none => misshapen

namespace Immediate

def isFiniteSingle (bits : UInt32) : Bool := bits &&& 0x7F800000 != 0x7F800000

def isFiniteDouble (bits : UInt64) : Bool := bits &&& 0x7FF0000000000000 != 0x7FF0000000000000

def toJson : Immediate → Json
  | .int8 value => tagged "Int8" (.int value.toInt)
  | .int32 value => tagged "Int32" (.int value.toInt)
  | .int64 value => tagged "Int64" (.int value.toInt)
  | .float32 bits =>
    tagged "Float32" (if isFiniteSingle bits then .number (.single bits) else .null)
  | .float64 bits =>
    tagged "Float64" (if isFiniteDouble bits then .number (.double bits) else .null)

def ofJson (j : Json) : Read Immediate := do
  match ← form j with
  | ("Int8", j) => (withValue Document.int8 j).map .int8
  | ("Int32", j) => (withValue Document.int32 j).map .int32
  | ("Int64", j) => (withValue Document.int64 j).map .int64
  | ("Float32", j) => (withValue Document.float32 j).map .float32
  | ("Float64", j) => (withValue Document.float64 j).map .float64
  | _ => misshapen

end Immediate

namespace Operand

def toJson : Operand → Json
  | .none => .string "None"
  | .immediate value => tagged "Immediate" value.toJson
  | .string value => tagged "String" (.string value)
  | .local index => tagged "Local" (.nat index.toNat)
  | .argument index => tagged "Argument" (.nat index.toNat)
  | .token t => tagged "Token" t.toJson
  | .type t => tagged "Type" t.toJson
  | .target id => tagged "Target" id.toJson
  | .switch ids => tagged "Switch" (.ofList InstrId.toJson ids)

/-- An operand from its document. -/
def ofJson (j : Json) : Read Operand := do
  match ← form j with
  | ("None", j) => bare .none j
  | ("Immediate", j) => (withValue Immediate.ofJson j).map .immediate
  | ("String", j) => (withValue Document.string j).map .string
  | ("Local", j) => (withValue uint16 j).map .local
  | ("Argument", j) => (withValue uint16 j).map .argument
  | ("Token", j) => (withValue Token.ofJson j).map .token
  | ("Type", j) => (withValue TypeSig.ofJson j).map .type
  | ("Target", j) => (withValue InstrId.ofJson j).map .target
  | ("Switch", j) => (withValue (list InstrId.ofJson) j).map .switch
  | _ => misshapen

end Operand

namespace Instruction

/-- An instruction with the fields read so far. -/
structure Fields where
  op : Option OpCode
  operand : Option Operand
  offset : Option UInt32

def toJson (i : Instruction) : Json :=
  .record [("opcode", i.op.toJson), ("operand", i.operand.toJson),
    ("offset", .nat i.offset.toNat)]

def readField (f : Fields) : String → Json → Read Fields
  | "opcode", j => (once f.op OpCode.ofJson j).map ({ f with op := · })
  | "operand", j => (once f.operand Operand.ofJson j).map ({ f with operand := · })
  | _, j => (once f.offset uint32 j).map ({ f with offset := · })

/-- An instruction from its document; the offset is zero unless it is given. -/
def ofJson (j : Json) : Read Instruction := do
  let f ← record ["opcode", "operand", "offset"] 1 readField ⟨none, none, none⟩ j
  complete (do some ⟨← f.op, ← f.operand, f.offset.getD 0⟩)

end Instruction

namespace ChainNode

/-- A slot with the fields read so far. -/
structure Fields where
  instruction : Option Instruction
  prev : Option (Option InstrId)
  next : Option (Option InstrId)
  attached : Option Bool

def toJson (n : ChainNode) : Json :=
  .record [("instruction", n.instruction.toJson), ("prev", .ofOption InstrId.toJson n.prev),
    ("next", .ofOption InstrId.toJson n.next), ("attached", .bool n.attached)]

def readField (f : Fields) : String → Json → Read Fields
  | "instruction", j =>
    (once f.instruction Instruction.ofJson j).map ({ f with instruction := · })
  | "prev", j => (once f.prev (nullable InstrId.ofJson) j).map ({ f with prev := · })
  | "next", j => (once f.next (nullable InstrId.ofJson) j).map ({ f with next := · })
  | _, j => (once f.attached bool j).map ({ f with attached := · })

/-- A slot from its document; a link that is not given is none. -/
def ofJson (j : Json) : Read ChainNode := do
  let f ← record ["instruction", "prev", "next", "attached"] 0 readField
    ⟨none, none, none, none⟩ j
  complete (do some ⟨← f.instruction, f.prev.join, f.next.join, ← f.attached⟩)

end ChainNode

namespace Chain

/-- A chain with the fields read so far. -/
structure Fields where
  nodes : Option (List ChainNode)
  head : Option (Option InstrId)
  tail : Option (Option InstrId)
  length : Option UInt64

def toJson (c : Chain) : Json :=
  .record [("nodes", .ofList ChainNode.toJson c.nodes.toList),
    ("head", .ofOption InstrId.toJson c.head), ("tail", .ofOption InstrId.toJson c.tail),
    ("len", .nat c.length.toNat)]

def readField (f : Fields) : String → Json → Read Fields
  | "nodes", j => (once f.nodes (list ChainNode.ofJson) j).map ({ f with nodes := · })
  | "head", j => (once f.head (nullable InstrId.ofJson) j).map ({ f with head := · })
  | "tail", j => (once f.tail (nullable InstrId.ofJson) j).map ({ f with tail := · })
  | _, j => (once f.length uint64 j).map ({ f with length := · })

def ofJson (j : Json) : Read Chain := do
  let f ← record ["nodes", "head", "tail", "len"] 0 readField ⟨none, none, none, none⟩ j
  complete (do some ⟨(← f.nodes).toArray, f.head.join, f.tail.join, ← f.length⟩)

end Chain

namespace InstructionList

def toJson (l : InstructionList) : Json := l.toChain.toJson

def ofJson (j : Json) : Read InstructionList := do
  match ofChain (← Chain.ofJson j) with
  | .ok l => .ok l
  | .error fault => .error (.list fault)

end InstructionList

namespace Handler

/-- A handler with the fields read so far. -/
structure Fields where
  flags : Option Nat
  tryStart : Option InstrId
  tryEnd : Option (Option InstrId)
  handlerStart : Option InstrId
  handlerEnd : Option (Option InstrId)
  filterStart : Option (Option InstrId)
  catchType : Option (Option TypeSig)

def toJson (h : Handler) : Json :=
  .record [("flags", HandlerFlags.names.toJson h.flags.bits.toNat),
    ("try_start", h.tryStart.toJson), ("try_end", .ofOption InstrId.toJson h.tryEnd),
    ("handler_start", h.handlerStart.toJson),
    ("handler_end", .ofOption InstrId.toJson h.handlerEnd),
    ("filter_start", .ofOption InstrId.toJson h.filterStart),
    ("catch_type", .ofOption TypeSig.toJson h.catchType)]

def readField (f : Fields) : String → Json → Read Fields
  | "flags", j => (once f.flags HandlerFlags.names.ofJson j).map ({ f with flags := · })
  | "try_start", j => (once f.tryStart InstrId.ofJson j).map ({ f with tryStart := · })
  | "try_end", j => (once f.tryEnd (nullable InstrId.ofJson) j).map ({ f with tryEnd := · })
  | "handler_start", j =>
    (once f.handlerStart InstrId.ofJson j).map ({ f with handlerStart := · })
  | "handler_end", j =>
    (once f.handlerEnd (nullable InstrId.ofJson) j).map ({ f with handlerEnd := · })
  | "filter_start", j =>
    (once f.filterStart (nullable InstrId.ofJson) j).map ({ f with filterStart := · })
  | _, j => (once f.catchType (nullable TypeSig.ofJson) j).map ({ f with catchType := · })

def ofJson (j : Json) : Read Handler := do
  let f ← record
    ["flags", "try_start", "try_end", "handler_start", "handler_end", "filter_start",
      "catch_type"]
    0 readField ⟨none, none, none, none, none, none, none⟩ j
  complete (do
    some ⟨⟨UInt16.ofNat (← f.flags)⟩, ← f.tryStart, f.tryEnd.join, ← f.handlerStart,
      f.handlerEnd.join, f.filterStart.join, f.catchType.join⟩)

end Handler

namespace MethodBody

/-- A body with the fields read so far. -/
structure Fields where
  code : Option InstructionList
  locals : Option (List TypeSig)
  handlers : Option (List Handler)
  maxStack : Option UInt16
  initLocals : Option Bool
  codeSize : Option UInt32

def toJson (b : MethodBody) : Json :=
  .record [("instructions", b.code.toJson),
    ("locals", .ofList TypeSig.toJson b.locals.toList),
    ("exception_handlers", .ofList Handler.toJson b.handlers),
    ("max_stack", .nat b.maxStack.toNat), ("init_locals", .bool b.initLocals),
    ("code_size", .nat b.codeSize.toNat)]

def readField (f : Fields) : String → Json → Read Fields
  | "instructions", j => (once f.code InstructionList.ofJson j).map ({ f with code := · })
  | "locals", j => (once f.locals (list TypeSig.ofJson) j).map ({ f with locals := · })
  | "exception_handlers", j =>
    (once f.handlers (list Handler.ofJson) j).map ({ f with handlers := · })
  | "max_stack", j => (once f.maxStack uint16 j).map ({ f with maxStack := · })
  | "init_locals", j => (once f.initLocals bool j).map ({ f with initLocals := · })
  | _, j => (once f.codeSize uint32 j).map ({ f with codeSize := · })

def ofJson (j : Json) : Read MethodBody := do
  let f ← record
    ["instructions", "locals", "exception_handlers", "max_stack", "init_locals", "code_size"]
    0 readField ⟨none, none, none, none, none, none⟩ j
  complete (do
    some ⟨← f.code, (← f.locals).toArray, ← f.handlers, ← f.maxStack, ← f.initLocals,
      ← f.codeSize⟩)

end MethodBody

end CilWeave
