import CilWeave.Body
import CilWeave.ReferenceTable

/-
The depth of the evaluation stack.

`MethodBody.computeMaxStack` visits every reachable instruction once and carries
the depth along the edges of the control flow. All paths to an instruction must
arrive with the same depth. Where they do not, where an instruction pops more
than there is, or where control runs past the end, the body is refused, so a
miscompiled body is never kept.
-/

namespace CilWeave

namespace Instruction

/-- The method an instruction calls. A token that names no method spoils this
instruction alone. -/
def calledMethod (i : Instruction) (refs : ReferenceTable) : Except Error MethodRef :=
  match i.token?.map refs.method with
  | some (.ok method) => .ok method
  | _ => .error (.invalidOperand i.op "imported method token")

/-- How many values the instruction pops and how many it then pushes, in a method
with this return type. -/
def stackEffect (i : Instruction) (refs : ReferenceTable) (returnType : TypeSig) :
    Except Error (Nat × Nat) :=
  match i.op.info.stack with
  | .fixed pops pushes => .ok (pops, pushes)
  | .call =>
    (i.calledMethod refs).map fun method =>
      (method.pops, if method.returnType.isVoid then 0 else 1)
  | .newObj => (i.calledMethod refs).map fun method => (method.signature.parameters.length, 1)
  | .return => .ok (if returnType.isVoid then 0 else 1, 0)
  | .unsupported => .error (.unsupportedInstruction i.op)

end Instruction

/-- Where control goes from an instruction. -/
inductive Edge where
  /-- On to the next instruction. -/
  | next
  /-- To a target. -/
  | target (id : InstrId)
  deriving DecidableEq, Repr, Inhabited

namespace Instruction

/-- The ways on from an instruction, targets first. -/
def edges (i : Instruction) : List Edge :=
  match i.op.flow with
  | .sequential | .call => [.next]
  | .conditionalBranch | .switch => i.targets.map .target ++ [.next]
  | .unconditionalBranch | .leave => i.targets.map .target
  | .return | .throw | .endFinally => []

/-- The depth on the ways on from an instruction that leaves `after` values: to
leave a protected region empties the stack. -/
def edgeDepth (i : Instruction) (after : Nat) : Nat :=
  match i.op.flow with
  | .leave => 0
  | _ => after

end Instruction

/-- What the analysis knows so far. -/
structure DepthMap where
  /-- The depth on entry to each position that was reached. -/
  depths : Array (Option Nat)
  /-- Positions whose edges are still to be followed, the latest first. -/
  pending : List Nat
  deriving Repr, Inhabited

namespace DepthMap

/-- Control arrives at a position with a depth. -/
def record (map : DepthMap) (position depth : Nat) : Except Error DepthMap :=
  match map.depths[position]? with
  | none => .error .fallThrough
  | some none => .ok ⟨map.depths.setIfInBounds position (some depth), position :: map.pending⟩
  | some (some expected) =>
    if expected = depth then .ok map else .error (.stackMismatch position expected depth)

end DepthMap

namespace MethodBody

def positionOf (positions : Array (Option Nat)) (id : InstrId) : Except Error Nat :=
  match positions[id.slot]? with
  | some (some position) => .ok position
  | _ => .error (.dangling (.flow id))

/-- Control arrives at an instruction with a depth. -/
def recordAt (positions : Array (Option Nat)) (map : DepthMap) (id : InstrId) (depth : Nat) :
    Except Error DepthMap :=
  match positionOf positions id with
  | .error e => .error e
  | .ok position => map.record position depth

/-- Control arrives over each of some edges from a position. -/
def recordEdges (positions : Array (Option Nat)) (position depth : Nat) :
    List Edge → DepthMap → Except Error DepthMap
  | [], map => .ok map
  | .next :: rest, map =>
    match map.record (position + 1) depth with
    | .error e => .error e
    | .ok map => recordEdges positions position depth rest map
  | .target id :: rest, map =>
    match recordAt positions map id depth with
    | .error e => .error e
    | .ok map => recordEdges positions position depth rest map

/-- Control arrives at each handler, with the exception on the stack if the
clause has it there, and at each filter, always with the exception. -/
def recordHandlers (positions : Array (Option Nat)) :
    List Handler → DepthMap → Except Error DepthMap
  | [], map => .ok map
  | h :: rest, map =>
    match recordAt positions map h.handlerStart (if h.pushesException then 1 else 0) with
    | .error e => .error e
    | .ok map =>
      match h.filterStart with
      | none => recordHandlers positions rest map
      | some id =>
        match recordAt positions map id 1 with
        | .error e => .error e
        | .ok map => recordHandlers positions rest map

/-- Follows the pending positions, for at most `steps` of them, and gives the
greatest depth seen. -/
def depthLoop (code : Array Instruction) (positions : Array (Option Nat))
    (refs : ReferenceTable) (returnType : TypeSig) :
    (steps : Nat) → DepthMap → (deepest : Nat) → Except Error Nat
  | 0, _, deepest => .ok deepest
  | steps + 1, map, deepest =>
    match map.pending with
    | [] => .ok deepest
    | position :: pending =>
      let depth := (map.depths[position]?.getD none).getD 0
      match code[position]? with
      | none => .error .fallThrough
      | some i =>
        match i.stackEffect refs returnType with
        | .error e => .error e
        | .ok (pops, pushes) =>
          if depth < pops then .error (.stackUnderflow position i.op)
          else
            let after := depth - pops + pushes
            match recordEdges positions position (i.edgeDepth after) i.edges
                { map with pending } with
            | .error e => .error e
            | .ok map =>
              depthLoop code positions refs returnType steps map (max (max deepest depth) after)

/-- The greatest depth of the evaluation stack, before or after any reachable
instruction. Each position is pending at most once, so one step a position is
enough. -/
def computeMaxStack (b : MethodBody) (refs : ReferenceTable) (returnType : TypeSig) :
    Except Error UInt16 :=
  if b.code.isEmpty then .ok 0
  else
    let code := b.code.instructions.toArray
    let positions := b.code.positions
    let start : DepthMap := ⟨Array.replicate code.size none, []⟩
    match start.record 0 0 with
    | .error e => .error e
    | .ok map =>
      match recordHandlers positions b.handlers map with
      | .error e => .error e
      | .ok map =>
        match depthLoop code positions refs returnType (code.size + 1) map 0 with
        | .error e => .error e
        | .ok deepest =>
          if deepest < UInt16.size then .ok (UInt16.ofNat deepest)
          else .error (.malformed .stackTooDeep)

end MethodBody

end CilWeave
