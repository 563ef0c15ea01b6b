import CilWeave.Document.Code
import CilWeave.Proofs.Document.Flags
import CilWeave.Proofs.Document.Members
import CilWeave.Proofs.InstructionList.Links

/-
Instructions, handlers and method bodies are read back from their documents.

The one value without a document form is a float that is infinite or no number: a constant is
read back exactly if it is finite (`Immediate.reads_toJson`), and so is whatever holds constants,
up to a method body with all the slots of its code (`MethodBody.reads_toJson`). A list of
instructions passes the check of its links because its links are those of its chain
(`InstructionList.reads_toJson`).
-/

namespace CilWeave

open Document

theorem FlagNames.ofJson_toJson {flags : FlagNames} {bits : Nat} (h : flags.Readable)
    (hbits : bits < 2 ^ flags.width) : flags.ofJson (flags.toJson bits) = .ok bits := by
  show orMisshapen (flags.read? (flags.write bits)) = .ok bits
  rw [read?_write h hbits]
  rfl

namespace OpCode

theorem mem_all (op : OpCode) : op ∈ all := by
  have hplace : all[op.ctorIdx]? = some op := by cases op <;> rfl
  exact List.mem_of_getElem? hplace

def nameNumber (name : String) : Nat := name.toList.foldl (fun n c => n * 128 + c.toNat) 0

theorem find?_nameNumber : ∀ op ∈ all,
    all.find? (fun other => nameNumber other.name = nameNumber op.name) = some op := by
  decide +kernel

theorem nameNumber_inj {op other : OpCode}
    (h : nameNumber other.name = nameNumber op.name) : other = op := by
  have hop := find?_nameNumber op op.mem_all
  have hother := find?_nameNumber other other.mem_all
  rw [h, hop] at hother
  exact (Option.some.inj hother).symm

theorem ofName?_name (op : OpCode) : ofName? op.name = some op := by
  have hsame : (fun other : OpCode => other.name == op.name) =
      fun other => decide (nameNumber other.name = nameNumber op.name) := by
    funext other
    by_cases h : other = op
    · simp [h]
    · have hnumber : nameNumber other.name ≠ nameNumber op.name := fun e => h (nameNumber_inj e)
      have hname : other.name ≠ op.name := fun e => hnumber (congrArg nameNumber e)
      rw [beq_eq_false_iff_ne.mpr hname, decide_eq_false hnumber]
  unfold ofName?
  rw [hsame]
  exact find?_nameNumber op op.mem_all

theorem ofJson_toJson (op : OpCode) : ofJson op.toJson = .ok op := by
  simp only [ofJson, toJson, form, bind, Except.bind, ofName?_name, bare]

end OpCode

/-! ## Constants -/

namespace Immediate

/-- A float is infinite or no number if all bits of its exponent are set; every other constant is
finite. -/
def IsFinite : Immediate → Prop
  | .int8 _ | .int32 _ | .int64 _ => True
  | .float32 bits => bits.toNat / 2 ^ 23 % 2 ^ 8 ≠ 2 ^ 8 - 1
  | .float64 bits => bits.toNat / 2 ^ 52 % 2 ^ 11 ≠ 2 ^ 11 - 1

theorem and_ones (n shift width : Nat) :
    n &&& ((2 ^ width - 1) * 2 ^ shift) = n / 2 ^ shift % 2 ^ width * 2 ^ shift := by
  apply Nat.eq_of_testBit_eq
  intro i
  rw [Nat.testBit_and, Nat.testBit_mul_two_pow, Nat.testBit_mul_two_pow,
    Nat.testBit_mod_two_pow, Nat.testBit_two_pow_sub_one, Nat.testBit_div_two_pow]
  by_cases h : shift ≤ i
  · simp [h, Bool.and_comm]
  · simp [h]

theorem and_ones_eq_iff {n shift width : Nat} :
    n &&& ((2 ^ width - 1) * 2 ^ shift) = (2 ^ width - 1) * 2 ^ shift ↔
      n / 2 ^ shift % 2 ^ width = 2 ^ width - 1 := by
  rw [and_ones]
  exact Nat.mul_left_inj (Nat.two_pow_pos shift).ne'

theorem isFiniteSingle_iff (bits : UInt32) :
    isFiniteSingle bits = true ↔ (float32 bits).IsFinite := by
  have hand : bits &&& 0x7F800000 = 0x7F800000 ↔
      bits.toNat &&& ((2 ^ 8 - 1) * 2 ^ 23) = (2 ^ 8 - 1) * 2 ^ 23 := by
    rw [← UInt32.toNat_inj, UInt32.toNat_and]
    rfl
  unfold isFiniteSingle
  rw [bne_iff_ne, ne_eq, hand, and_ones_eq_iff]
  rfl

theorem isFiniteDouble_iff (bits : UInt64) :
    isFiniteDouble bits = true ↔ (float64 bits).IsFinite := by
  have hand : bits &&& 0x7FF0000000000000 = 0x7FF0000000000000 ↔
      bits.toNat &&& ((2 ^ 11 - 1) * 2 ^ 52) = (2 ^ 11 - 1) * 2 ^ 52 := by
    rw [← UInt64.toNat_inj, UInt64.toNat_and]
    rfl
  unfold isFiniteDouble
  rw [bne_iff_ne, ne_eq, hand, and_ones_eq_iff]
  rfl

/-- A constant is read back exactly if it is finite. -/
theorem reads_toJson (value : Immediate) : Reads (ofJson value.toJson) value value.IsFinite := by
  cases value with
  | int8 value => exact (Reads.of_eq (int8_int value)).map int8
  | int32 value => exact (Reads.of_eq (int32_int value)).map int32
  | int64 value => exact (Reads.of_eq (int64_int value)).map int64
  | float32 bits =>
    have hread : Reads (Document.float32
        (if isFiniteSingle bits then .number (.single bits) else .null)) bits
        (isFiniteSingle bits = true) := by
      by_cases h : isFiniteSingle bits = true
      · rw [if_pos h]
        exact (Reads.of_eq rfl).congr (by simp [h])
      · rw [if_neg h]
        exact (Reads.of_eq_error rfl).congr (by simp [h])
    exact (hread.map float32).congr (isFiniteSingle_iff bits)
  | float64 bits =>
    have hread : Reads (Document.float64
        (if isFiniteDouble bits then .number (.double bits) else .null)) bits
        (isFiniteDouble bits = true) := by
      by_cases h : isFiniteDouble bits = true
      · rw [if_pos h]
        exact (Reads.of_eq rfl).congr (by simp [h])
      · rw [if_neg h]
        exact (Reads.of_eq_error rfl).congr (by simp [h])
    exact (hread.map float64).congr (isFiniteDouble_iff bits)

end Immediate

/-! ## Instructions -/

namespace Operand

/-- Whether the operand is no float that is infinite or no number. -/
def IsFinite : Operand → Prop
  | .immediate value => value.IsFinite
  | _ => True

theorem reads_toJson (operand : Operand) :
    Reads (ofJson operand.toJson) operand operand.IsFinite := by
  cases operand with
  | none => exact .of_eq rfl
  | immediate value => exact .form value.reads_toJson fun _ => rfl
  | string value => exact .form (.of_eq (string_string value)) fun _ => rfl
  | «local» index => exact .form (.of_eq (uint16_nat index)) fun _ => rfl
  | argument index => exact .form (.of_eq (uint16_nat index)) fun _ => rfl
  | token t => exact .form (.of_eq t.ofJson_toJson) fun _ => rfl
  | type t => exact .form (.of_eq t.ofJson_toJson) fun _ => rfl
  | target id => exact .form (.of_eq id.ofJson_toJson) fun _ => rfl
  | switch ids => exact .form (.of_eq (list_ofList InstrId.ofJson_toJson ids)) fun _ => rfl

end Operand

theorem Instruction.reads_toJson (i : Instruction) :
    Reads (ofJson i.toJson) i i.operand.IsFinite := by
  have hfields : Reads
      (record ["opcode", "operand", "offset"] 1 readField ⟨none, none, none⟩ i.toJson)
      ⟨some i.op, some i.operand, some i.offset⟩ i.operand.IsFinite := by
    refine .of_step (record_cons rfl rfl i.op.ofJson_toJson) ?_
    exact .record_cons rfl rfl i.operand.reads_toJson (record_cons rfl rfl (uint32_nat i.offset))
  exact hfields.bind rfl

/-! ## Lists of instructions -/

theorem InstrId.nullable_ofOption (id : Option InstrId) :
    nullable InstrId.ofJson (.ofOption InstrId.toJson id) = .ok id :=
  Document.nullable_ofOption nofun InstrId.ofJson_toJson id

theorem ChainNode.reads_toJson (n : ChainNode) :
    Reads (ofJson n.toJson) n n.instruction.operand.IsFinite := by
  have hfields : Reads
      (record ["instruction", "prev", "next", "attached"] 0 readField ⟨none, none, none, none⟩
        n.toJson)
      ⟨some n.instruction, some n.prev, some n.next, some n.attached⟩
      n.instruction.operand.IsFinite := by
    refine .record_cons rfl rfl n.instruction.reads_toJson ?_
    calc
      _ = _ := record_cons rfl rfl (InstrId.nullable_ofOption n.prev)
      _ = _ := record_cons rfl rfl (InstrId.nullable_ofOption n.next)
      _ = _ := record_cons rfl rfl (bool_bool n.attached)
  exact hfields.bind rfl

theorem Chain.reads_toJson (c : Chain) :
    Reads (ofJson c.toJson) c (∀ n ∈ c.nodes.toList, n.instruction.operand.IsFinite) := by
  have hfields : Reads
      (record ["nodes", "head", "tail", "len"] 0 readField ⟨none, none, none, none⟩ c.toJson)
      ⟨some c.nodes.toList, some c.head, some c.tail, some c.length⟩
      (∀ n ∈ c.nodes.toList, n.instruction.operand.IsFinite) := by
    refine .record_cons rfl rfl (.list fun n _ => n.reads_toJson) ?_
    calc
      _ = _ := record_cons rfl rfl (InstrId.nullable_ofOption c.head)
      _ = _ := record_cons rfl rfl (InstrId.nullable_ofOption c.tail)
      _ = _ := record_cons rfl rfl (uint64_nat c.length)
  exact hfields.bind rfl

namespace InstructionList

/-- Whether every constant is finite, also in the slots that are detached. -/
def IsFinite (l : InstructionList) : Prop := ∀ slot ∈ l.slots, slot.instruction.operand.IsFinite

theorem instruction_toChain (l : InstructionList) (n : Nat) :
    (l.toChain.nodes[n]?).map ChainNode.instruction = (l.slots[n]?).map Slot.instruction := by
  unfold toChain
  rw [Array.getElem?_mapIdx, Option.map_map]
  refine congrArg (Option.map · l.slots[n]?) (funext fun slot => ?_)
  obtain ⟨instruction, place⟩ := slot
  cases place <;> rfl

theorem forall_nodes_toChain (l : InstructionList) (p : Instruction → Prop) :
    (∀ n ∈ l.toChain.nodes.toList, p n.instruction) ↔ ∀ slot ∈ l.slots, p slot.instruction := by
  simp only [Array.mem_toList_iff, Array.mem_iff_getElem?]
  constructor
  · rintro h slot ⟨n, hslot⟩
    have hsame := (l.instruction_toChain n).trans (congrArg (Option.map Slot.instruction) hslot)
    obtain ⟨node, hnode, heq⟩ := Option.map_eq_some_iff.mp hsame
    exact heq ▸ h node ⟨n, hnode⟩
  · rintro h node ⟨n, hnode⟩
    have hsame := (l.instruction_toChain n).symm.trans
      (congrArg (Option.map ChainNode.instruction) hnode)
    obtain ⟨slot, hslot, heq⟩ := Option.map_eq_some_iff.mp hsame
    exact heq ▸ h slot ⟨n, hslot⟩

/-- A list is read back, with its detached slots, exactly if its constants are finite. -/
theorem reads_toJson (l : InstructionList) :
    Reads (ofJson l.toJson) l l.IsFinite := by
  have hconstants := l.forall_nodes_toChain fun i => i.operand.IsFinite
  refine (l.toChain.reads_toJson.congr hconstants).bind ?_
  rw [ofChain_toChain]

end InstructionList

/-! ## Bodies -/

theorem HandlerFlags.readable_names : HandlerFlags.names.Readable :=
  ⟨by decide, by decide, by decide⟩

theorem TypeSig.nullable_ofOption (type : Option TypeSig) :
    nullable TypeSig.ofJson (.ofOption TypeSig.toJson type) = .ok type :=
  Document.nullable_ofOption TypeSig.toJson_ne_null TypeSig.ofJson_toJson type

theorem Handler.ofJson_toJson (h : Handler) : ofJson h.toJson = .ok h := by
  have hflags : HandlerFlags.names.ofJson (HandlerFlags.names.toJson h.flags.bits.toNat) =
      .ok h.flags.bits.toNat :=
    FlagNames.ofJson_toJson HandlerFlags.readable_names h.flags.bits.toNat_lt
  have hfields : record
      ["flags", "try_start", "try_end", "handler_start", "handler_end", "filter_start",
        "catch_type"]
      0 readField ⟨none, none, none, none, none, none, none⟩ h.toJson =
      .ok ⟨some h.flags.bits.toNat, some h.tryStart, some h.tryEnd, some h.handlerStart,
        some h.handlerEnd, some h.filterStart, some h.catchType⟩ := calc
    _ = _ := record_cons rfl rfl hflags
    _ = _ := record_cons rfl rfl h.tryStart.ofJson_toJson
    _ = _ := record_cons rfl rfl (InstrId.nullable_ofOption h.tryEnd)
    _ = _ := record_cons rfl rfl h.handlerStart.ofJson_toJson
    _ = _ := record_cons rfl rfl (InstrId.nullable_ofOption h.handlerEnd)
    _ = _ := record_cons rfl rfl (InstrId.nullable_ofOption h.filterStart)
    _ = _ := record_cons rfl rfl (TypeSig.nullable_ofOption h.catchType)
  rw [ofJson, hfields]
  show Except.ok { h with flags := ⟨UInt16.ofNat h.flags.bits.toNat⟩ } = Except.ok h
  rw [UInt16.ofNat_toNat]

/-- A body is read back exactly if the constants of its code are finite. -/
theorem MethodBody.reads_toJson (b : MethodBody) :
    Reads (ofJson b.toJson) b b.code.IsFinite := by
  have hfields : Reads
      (record
        ["instructions", "locals", "exception_handlers", "max_stack", "init_locals", "code_size"]
        0 readField ⟨none, none, none, none, none, none⟩ b.toJson)
      ⟨some b.code, some b.locals.toList, some b.handlers, some b.maxStack, some b.initLocals,
        some b.codeSize⟩
      b.code.IsFinite := by
    refine .record_cons rfl rfl b.code.reads_toJson ?_
    calc
      _ = _ := record_cons rfl rfl (list_ofList TypeSig.ofJson_toJson b.locals.toList)
      _ = _ := record_cons rfl rfl (list_ofList Handler.ofJson_toJson b.handlers)
      _ = _ := record_cons rfl rfl (uint16_nat b.maxStack)
      _ = _ := record_cons rfl rfl (bool_bool b.initLocals)
      _ = _ := record_cons rfl rfl (uint32_nat b.codeSize)
  exact hfields.bind rfl

end CilWeave
