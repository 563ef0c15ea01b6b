import CilWeave.Proofs.InstructionList.Order
import CilWeave.StackDepth

/-
How deep the evaluation stack is wherever control can come.

`MethodBody.Arrives` is the control flow of a body: it holds of an instruction
and a depth if some path, of any length and through any handlers, brings control
there with that many values on the stack. It knows nothing of an order in which
paths are followed. `MethodBody.Balanced` says that no path goes wrong, and
`MethodBody.Occurs` which depths there are at all.
-/

namespace CilWeave

namespace Flow

/-- Whether control may go on to the next instruction. -/
def goesOn : Flow → Bool
  | .sequential | .call | .conditionalBranch | .switch => true
  | .unconditionalBranch | .leave | .return | .throw | .endFinally => false

/-- Whether control may go to the targets of the instruction. -/
def jumps : Flow → Bool
  | .conditionalBranch | .switch | .unconditionalBranch | .leave => true
  | .sequential | .call | .return | .throw | .endFinally => false

end Flow

namespace MethodBody

/-- Where control enters a body, and with how many values: at the first instruction
with none, at a handler with the exception if the clause has it there, and at a
filter with the exception. -/
inductive Entry (b : MethodBody) : InstrId → Nat → Prop where
  | first {id : InstrId} : b.code.first? = some id → Entry b id 0
  | handler {h : Handler} : h ∈ b.handlers →
      Entry b h.handlerStart (if h.pushesException then 1 else 0)
  | filter {h : Handler} {id : InstrId} : h ∈ b.handlers → h.filterStart = some id →
      Entry b id 1

/-- The instruction of `id` is `i`, it finds what it pops among `depth` values, and
`after` values are on the stack when it is done. -/
def Executes (b : MethodBody) (refs : ReferenceTable) (returnType : TypeSig) (id : InstrId)
    (depth : Nat) (i : Instruction) (after : Nat) : Prop :=
  b.code.get? id = some i ∧ ∃ pops pushes, i.stackEffect refs returnType = .ok (pops, pushes) ∧
    pops ≤ depth ∧ after = depth - pops + pushes

/-- Control can come to an instruction with this many values on the stack. -/
inductive Arrives (b : MethodBody) (refs : ReferenceTable) (returnType : TypeSig) :
    InstrId → Nat → Prop where
  | entry {id : InstrId} {depth : Nat} : Entry b id depth → Arrives b refs returnType id depth
  | next {id id' : InstrId} {depth after : Nat} {i : Instruction} :
      Arrives b refs returnType id depth → b.Executes refs returnType id depth i after →
      i.op.flow.goesOn = true → b.code.next? id = some id' →
      Arrives b refs returnType id' after
  | target {id id' : InstrId} {depth after : Nat} {i : Instruction} :
      Arrives b refs returnType id depth → b.Executes refs returnType id depth i after →
      i.op.flow.jumps = true → id' ∈ i.targets →
      Arrives b refs returnType id' (if i.op.flow = .leave then 0 else after)

/-- No path through a body goes wrong. -/
structure Balanced (b : MethodBody) (refs : ReferenceTable) (returnType : TypeSig) : Prop where
  /-- Control only comes to instructions of the body. -/
  attached : ∀ id depth, b.Arrives refs returnType id depth → b.code.contains id = true
  /-- What an instruction does to the stack is known. -/
  defined : ∀ id depth i, b.Arrives refs returnType id depth → b.code.get? id = some i →
    ∃ effect, i.stackEffect refs returnType = .ok effect
  /-- There is always enough on the stack. -/
  fed : ∀ id depth i pops pushes, b.Arrives refs returnType id depth →
    b.code.get? id = some i → i.stackEffect refs returnType = .ok (pops, pushes) → pops ≤ depth
  /-- Control never runs past the last instruction. -/
  ends : ∀ id depth i, b.Arrives refs returnType id depth → b.code.get? id = some i →
    i.op.flow.goesOn = true → ∃ id', b.code.next? id = some id'
  /-- All paths to an instruction arrive with the same depth. -/
  agree : ∀ id depth depth', b.Arrives refs returnType id depth →
    b.Arrives refs returnType id depth' → depth = depth'

/-- The stack has this depth before or after some instruction control can come to. -/
def Occurs (b : MethodBody) (refs : ReferenceTable) (returnType : TypeSig) (k : Nat) : Prop :=
  ∃ id depth, b.Arrives refs returnType id depth ∧
    (k = depth ∨ ∃ i, b.Executes refs returnType id depth i k)

/-! ## Arrival by position -/

/-- The position of a handle in the code; a handle outside the code has the position
behind the last one. -/
def placeOf (b : MethodBody) (id : InstrId) : Nat := (b.code.position? id).getD b.code.ids.length

theorem placeOf_eq {b : MethodBody} {id : InstrId} {p : Nat} (h : b.code.ids[p]? = some id) :
    b.placeOf id = p := by
  unfold placeOf
  rw [InstructionList.position?_eq_some.mpr h]; rfl

theorem ids_placeOf {b : MethodBody} {id : InstrId} (h : b.placeOf id < b.code.ids.length) :
    b.code.ids[b.placeOf id]? = some id := by
  unfold placeOf at h ⊢
  cases hp : b.code.position? id with
  | none => rw [hp] at h; simp at h
  | some p => exact InstructionList.position?_eq_some.mp hp

/-- Control can come to the instruction at a position with this many values. -/
def ArrivesAt (b : MethodBody) (refs : ReferenceTable) (returnType : TypeSig) (p depth : Nat) :
    Prop :=
  ∃ id, b.code.ids[p]? = some id ∧ b.Arrives refs returnType id depth

/-- The positions at which control enters a handler, with the depths. -/
def handlerSites (b : MethodBody) (h : Handler) : List (Nat × Nat) :=
  (b.placeOf h.handlerStart, if h.pushesException then 1 else 0)
    :: h.filterStart.toList.map fun id => (b.placeOf id, 1)

/-- The positions at which control enters a body, with the depths. -/
def entrySites (b : MethodBody) : List (Nat × Nat) := (0, 0) :: b.handlers.flatMap b.handlerSites

def edgePlace (b : MethodBody) (p : Nat) : Edge → Nat
  | .next => p + 1
  | .target id => b.placeOf id

/-- The positions an instruction leads to if it leaves `after` values, with the
depths. -/
def edgeSites (b : MethodBody) (p : Nat) (i : Instruction) (after : Nat) : List (Nat × Nat) :=
  i.edges.map fun e => (b.edgePlace p e, i.edgeDepth after)

theorem next_mem_edges {i : Instruction} : Edge.next ∈ i.edges ↔ i.op.flow.goesOn = true := by
  unfold Instruction.edges Flow.goesOn
  cases i.op.flow <;> simp

theorem target_mem_edges {i : Instruction} {id : InstrId} :
    Edge.target id ∈ i.edges ↔ i.op.flow.jumps = true ∧ id ∈ i.targets := by
  unfold Instruction.edges Flow.jumps
  cases i.op.flow <;> simp

theorem edgeDepth_eq (i : Instruction) (after : Nat) :
    i.edgeDepth after = if i.op.flow = .leave then 0 else after := by
  unfold Instruction.edgeDepth
  cases i.op.flow <;> simp

theorem edgeDepth_of_goesOn {i : Instruction} {after : Nat} (h : i.op.flow.goesOn = true) :
    i.edgeDepth after = after := by
  rw [edgeDepth_eq, if_neg]
  intro hleave
  rw [hleave] at h
  cases h

theorem arrivesAt_of_mem_entrySites {b : MethodBody} {refs : ReferenceTable}
    {returnType : TypeSig} {p depth : Nat} (h : (p, depth) ∈ b.entrySites)
    (hp : p < b.code.ids.length) : b.ArrivesAt refs returnType p depth := by
  simp only [entrySites, handlerSites, List.mem_cons, List.mem_flatMap, List.mem_map,
    Prod.mk.injEq] at h
  rcases h with ⟨rfl, rfl⟩ | ⟨handler, hh, ⟨rfl, rfl⟩ | ⟨id, hid, rfl, rfl⟩⟩
  · refine ⟨b.code.ids[0], List.getElem?_eq_getElem hp, .entry (.first ?_)⟩
    rw [InstructionList.first?_eq, List.getElem?_eq_getElem hp]
  · exact ⟨_, ids_placeOf hp, .entry (.handler hh)⟩
  · exact ⟨_, ids_placeOf hp, .entry (.filter hh (Option.mem_toList.mp hid))⟩

theorem mem_entrySites_of_entry {b : MethodBody} {id : InstrId} {depth : Nat}
    (h : Entry b id depth) : (b.placeOf id, depth) ∈ b.entrySites := by
  simp only [entrySites, handlerSites, List.mem_cons, List.mem_flatMap]
  cases h with
  | first hid =>
    rw [InstructionList.first?_eq] at hid
    exact .inl (by rw [placeOf_eq hid])
  | @handler h hh => exact .inr ⟨h, hh, .inl rfl⟩
  | @filter h id hh hid => exact .inr ⟨h, hh, .inr (by rw [hid]; simp)⟩

theorem arrivesAt_of_mem_edgeSites {b : MethodBody} {refs : ReferenceTable}
    {returnType : TypeSig} {p q depth d after : Nat} {id : InstrId} {i : Instruction}
    (hid : b.code.ids[p]? = some id) (ha : b.Arrives refs returnType id depth)
    (he : b.Executes refs returnType id depth i after) (h : (q, d) ∈ b.edgeSites p i after)
    (hq : q < b.code.ids.length) : b.ArrivesAt refs returnType q d := by
  obtain ⟨e, hmem, heq⟩ := List.mem_map.mp h
  cases heq
  cases e with
  | next =>
    have hgo := next_mem_edges.mp hmem
    refine ⟨_, List.getElem?_eq_getElem hq, ?_⟩
    rw [edgeDepth_of_goesOn hgo]
    refine .next ha he hgo ?_
    rw [InstructionList.next?_of_getElem? hid]
    exact List.getElem?_eq_getElem hq
  | target id' =>
    obtain ⟨hj, ht⟩ := target_mem_edges.mp hmem
    refine ⟨id', ids_placeOf hq, ?_⟩
    rw [edgeDepth_eq]
    exact .target ha he hj ht

end MethodBody

end CilWeave
