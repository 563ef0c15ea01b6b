import CilWeave.Encoding.Layout

/-
Replacing one instruction by several.

The first instruction of the replacement takes over the slot of the replaced
one, so whatever jumps to it or bounds a region by it now does so at the entry
of the replacement. The others follow in new slots. A replacement may also have
a trailer, which goes behind the instruction that comes next: that is how an
instruction of the method is wrapped.
-/

namespace CilWeave

/-- The instructions that replace one instruction. -/
structure Replacement where
  /-- What stands in its place. -/
  sequence : List Instruction
  /-- What comes behind the instruction after that. -/
  trailer : List Instruction
  deriving DecidableEq, Repr, Inhabited

def Replacement.of (sequence : List Instruction) : Replacement := ⟨sequence, []⟩

namespace MethodBody

/-- Puts some instructions directly after `anchor`, in their order; the last of them. -/
def insertAllAfter : (anchor : InstrId) → List Instruction → Edit MethodBody InstrId
  | anchor, [], b => .ok anchor b
  | anchor, i :: rest, b =>
    match onCode (InstructionList.insertAfter anchor i) b with
    | .ok new b => insertAllAfter new rest b
    | .error e b => .error e b

theorem insertAllAfter_cons_eq_ok {b b' : MethodBody} {i : Instruction}
    {rest : List Instruction} {anchor last : InstrId}
    (h : insertAllAfter anchor (i :: rest) b = .ok last b') :
    ∃ new code, InstructionList.insertAfter anchor i b.code = .ok new code ∧
      insertAllAfter new rest { b with code } = .ok last b' := by
  rw [insertAllAfter] at h
  split at h
  · rename_i new _ hinsert
    obtain ⟨code, hcode, rfl⟩ := Edit.within_eq_ok.mp hinsert
    exact ⟨new, code, hcode, h⟩
  · cases h

/-- Puts the trailer of a replacement behind the instruction after `last`. -/
def insertTrailer (last : InstrId) (trailer : List Instruction) : Edit MethodBody Unit := fun b =>
  match trailer with
  | [] => .ok () b
  | _ =>
    match b.code.next? last with
    | none => .error (.malformed .nothingFollows) b
    | some next =>
      match insertAllAfter next trailer b with
      | .error e b => .error e b
      | .ok _ b => .ok () b

/-- Replaces the instruction `site`. -/
def replace (site : InstrId) (r : Replacement) : Edit MethodBody Unit := fun b =>
  match r.sequence with
  | [] => .error (.malformed .emptyReplacement) b
  | first :: rest =>
    if b.code.contains site then
      let b := b.modifyAt site fun i => i.recode first.op first.operand
      match insertAllAfter site rest b with
      | .error e b => .error e b
      | .ok last b => insertTrailer last r.trailer b
    else .error (.dangling (.site site)) b

end MethodBody

end CilWeave
