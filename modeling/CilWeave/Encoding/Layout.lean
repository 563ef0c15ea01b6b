import CilWeave.Encoding.Forms
import CilWeave.StackDepth

/-
The encoding of a whole body.

`MethodBody.expand` brings every instruction into its expanded form and
`MethodBody.compact` into its smallest one, with the branches as short as the
layout allows; then it lays out the offsets and computes the depth of the stack.
Both refuse a body they do not understand.

The result of each function holds the body also where it fails: what was done up
to the fault stays done. An edit that must not show takes its own copy first.
-/

namespace CilWeave

namespace MethodBody

def modifyAt (b : MethodBody) (id : InstrId) (f : Instruction → Instruction) : MethodBody :=
  { b with code := b.code.modify id f }

/-- Expands the instructions of some handles, up to the first whose operand does
not fit its opcode. -/
def expandEach : List InstrId → Edit MethodBody Unit
  | [], b => .ok () b
  | id :: rest, b =>
    match b.code.get? id with
    | none => expandEach rest b
    | some i =>
      match i.checkOperand with
      | .error e => .error e b
      | .ok () => expandEach rest (b.modifyAt id Instruction.expanded)

/-- Brings a body into its expanded form and validates it. -/
def expand : Edit MethodBody Unit := fun b =>
  match expandEach b.code.ids b with
  | .error e b => .error e b
  | .ok () b =>
    match b.validate with
    | .error e => .error e b
    | .ok () => .ok () b

/-- Lays out the instructions of some handles one after the other from `offset`
on, and states where the last one ends as the size of the code. -/
def layOutFrom : List InstrId → (offset : UInt32) → Edit MethodBody UInt32
  | [], offset, b => .ok offset { b with codeSize := offset }
  | id :: rest, offset, b =>
    match b.code.get? id with
    | none => layOutFrom rest offset b
    | some i =>
      let b := b.modifyAt id fun i => { i with offset }
      if offset.toNat + i.size.toNat < UInt32.size then
        layOutFrom rest (offset + i.size) b
      else .error (.malformed .codeTooLong) b

/-- Gives every instruction its offset, and answers the size of the code. -/
def layOut : Edit MethodBody UInt32 := fun b => layOutFrom b.code.ids 0 b

/-- How far it is from the end of a branch to its target, as laid out. -/
def displacement (i target : Instruction) : Int :=
  (target.offset.toNat : Int) - (i.offset.toNat + i.size.toNat : Nat)

/-- Whether a branch, as laid out, has a short form that reaches its target. -/
def isShrinkable (b : MethodBody) (i : Instruction) : Bool :=
  i.op.shortBranch?.isSome &&
    match i.operand with
    | .target id =>
      match b.code.get? id with
      | some target =>
        let d := displacement i target
        decide (-128 ≤ d ∧ d ≤ 127)
      | none => false
    | _ => false

/-- The branches that can take their short form. -/
def shrinkable (b : MethodBody) : List InstrId :=
  b.code.entries.filterMap fun (id, i) => if b.isShrinkable i then some id else none

/-- The instruction with the short form of its branch. -/
def shortened (i : Instruction) : Instruction :=
  match i.op.shortBranch? with
  | some op => { i with op }
  | none => i

/-- Shortens branches in rounds, each of them from a fresh layout, until no branch
can take its short form or `rounds` are over; the layout is right at the end. A
shorter branch brings others closer to their targets and none further away. -/
def shortenBranches : (rounds : Nat) → Edit MethodBody Unit
  | 0, b =>
    match layOut b with
    | .error e b => .error e b
    | .ok _ b => .ok () b
  | rounds + 1, b =>
    match layOut b with
    | .error e b => .error e b
    | .ok _ b =>
      match b.shrinkable with
      | [] => .ok () b
      | ids => shortenBranches rounds (ids.foldl (fun b id => b.modifyAt id shortened) b)

/-- How many rounds the shortening of branches may take. -/
def maxRounds : Nat := 100

/-- Brings a body, in a method with this return type, into its smallest encoding
and computes its derived data. -/
def compact (refs : ReferenceTable) (returnType : TypeSig) : Edit MethodBody Unit := fun b =>
  match expand b with
  | .error e b => .error e b
  | .ok () b =>
    let b := b.code.ids.foldl (fun b id => b.modifyAt id Instruction.compacted) b
    match shortenBranches maxRounds b with
    | .error e b => .error e b
    | .ok () b =>
      match b.computeMaxStack refs returnType with
      | .error e => .error e b
      | .ok maxStack => .ok () { b with maxStack }

end MethodBody

end CilWeave
