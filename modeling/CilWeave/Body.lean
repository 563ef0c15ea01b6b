import CilWeave.Handler
import CilWeave.InstructionList.Chain

/-
Method bodies: code, local variables and exception handlers.

The depth of the stack, the size of the code and the offsets of the instructions
are derived data. Compaction rebuilds them after every edit, and nothing else
keeps them up to date.
-/

namespace CilWeave

/-- The body of one method. -/
structure MethodBody where
  /-- The code. -/
  code : InstructionList
  /-- The types of the local variables, by index. -/
  locals : Array TypeSig
  /-- The exception handlers. -/
  handlers : List Handler
  /-- The greatest depth of the evaluation stack. -/
  maxStack : UInt16
  /-- Whether locals start as zero. -/
  initLocals : Bool
  /-- The size of the code in bytes. -/
  codeSize : UInt32
  deriving Inhabited

/-- Declares a new local of this type; its index. A body takes 65535 locals. -/
def declareLocal (type : TypeSig) : Edit (Array TypeSig) UInt16 := fun locals =>
  if locals.size < 65535 then .ok (UInt16.ofNat locals.size) (locals.push type)
  else .error (.malformed .tooManyLocals) locals

theorem declareLocal_eq_ok {locals locals' : Array TypeSig} {type : TypeSig} {index : UInt16}
    (h : declareLocal type locals = .ok index locals') :
    index.toNat = locals.size ∧ locals' = locals.push type := by
  unfold declareLocal at h
  by_cases hsize : locals.size < 65535
  · rw [if_pos hsize] at h
    cases h
    exact ⟨UInt16.toNat_ofNat_of_lt' (Nat.lt_of_lt_of_le hsize (by decide)), rfl⟩
  · rw [if_neg hsize] at h
    cases h

theorem declareLocal_eq_error_iff {locals locals' : Array TypeSig} {type : TypeSig} {e : Error} :
    declareLocal type locals = .error e locals' ↔
      65535 ≤ locals.size ∧ e = .malformed .tooManyLocals ∧ locals' = locals := by
  unfold declareLocal
  by_cases hsize : locals.size < 65535
  · rw [if_pos hsize]
    exact ⟨nofun, fun h => absurd h.1 (Nat.not_le_of_lt hsize)⟩
  · rw [if_neg hsize]
    constructor
    · intro h
      cases h
      exact ⟨Nat.le_of_not_lt hsize, rfl, rfl⟩
    · rintro ⟨-, rfl, rfl⟩
      rfl

namespace MethodBody

/-- The body without instructions, locals and handlers. -/
def empty : MethodBody := ⟨.empty, #[], [], 0, false, 0⟩

/-- A body of some instructions without branches. -/
def ofList (code : List Instruction) : Except Error MethodBody :=
  (InstructionList.ofList code).map fun code => { empty with code, initLocals := true }

def addLocal (type : TypeSig) : Edit MethodBody UInt16 :=
  .within locals (fun b locals => { b with locals }) (declareLocal type)

def onCode {α : Type} (edit : Edit InstructionList α) : Edit MethodBody α :=
  .within code (fun b code => { b with code }) edit

/-- The instructions that a branch or a handler refers to. -/
def referenced (b : MethodBody) : List InstrId :=
  b.code.instructions.flatMap Instruction.targets ++ b.handlers.flatMap Handler.boundaries

/-- The first thing wrong with an instruction: a target outside the code, or a
local that is not declared. -/
def instructionFault? (b : MethodBody) (position : Nat) (i : Instruction) : Option Dangling :=
  if i.targets.all b.code.contains then
    match i.operand with
    | .local index =>
      if index.toNat < b.locals.size then none
      else some (.undeclaredLocal i.op position index)
    | _ => none
  else some (.branch i.op position)

/-- The first boundary of a handler that is outside the code. -/
def handlerFault? (b : MethodBody) (index : Nat) (h : Handler) : Option Dangling :=
  (h.boundaries.find? fun id => !b.code.contains id).map (.boundary index)

/-- The first thing in a list for which `fault?` finds a fault, by position. -/
def firstFault? {α β : Type} (fault? : Nat → α → Option β) : (position : Nat) → List α → Option β
  | _, [] => none
  | position, a :: rest =>
    match fault? position a with
    | some fault => some fault
    | none => firstFault? fault? (position + 1) rest

/-- Succeeds exactly if every branch target and handler boundary is part of the
code and every local operand names a declared local. -/
def validate (b : MethodBody) : Except Error Unit :=
  match firstFault? b.instructionFault? 0 b.code.instructions with
  | some fault => .error (.dangling fault)
  | none =>
    match firstFault? b.handlerFault? 0 b.handlers with
    | some fault => .error (.dangling fault)
    | none => .ok ()

end MethodBody

end CilWeave
