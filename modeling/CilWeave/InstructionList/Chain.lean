import CilWeave.InstructionList.Basic

/-
The linked form of an instruction list, as a module document holds it: every
slot with the handles of its neighbours, and the two ends of the chain.

`Chain.follow` walks the links from the head. It visits no slot twice, so it
ends after at most one step a slot. `InstructionList.ofChain` accepts a chain
only if the walk meets every attached slot, going back agrees with going forth,
and both the tail and the stated length are right. `InstructionList.toChain`
writes the links of a list.
-/

namespace CilWeave

/-- One slot with its links. -/
structure ChainNode where
  /-- The instruction in the slot. -/
  instruction : Instruction
  /-- The instruction before it. -/
  prev : Option InstrId
  /-- The instruction after it. -/
  next : Option InstrId
  /-- Whether the slot is part of the code. -/
  attached : Bool
  deriving DecidableEq, Repr, Inhabited

/-- The linked form of an instruction list; its links may be wrong. -/
structure Chain where
  /-- The slots, by handle. -/
  nodes : Array ChainNode
  /-- The first instruction. -/
  head : Option InstrId
  /-- The last instruction. -/
  tail : Option InstrId
  /-- The stated number of attached instructions. -/
  length : UInt64
  deriving DecidableEq, Repr, Inhabited

/-- The handles met on a walk over `n` slots, each of them once. -/
structure Trail (n : Nat) where
  /-- Which slots were met. -/
  marks : Array Bool
  /-- The handles in the order of the walk. -/
  order : Array InstrId
  size_marks : marks.size = n
  nodup : order.toList.Nodup
  mem_order : ∀ id, id ∈ order.toList ↔ marks[id.slot]? = some true
  marks_lt : ∀ m, marks[m]? = some true → m < UInt32.size

namespace Trail

/-- The walk that met nothing. -/
def start (n : Nat) : Trail n where
  marks := Array.replicate n false
  order := #[]
  size_marks := by simp
  nodup := List.nodup_nil
  mem_order := by simp [Array.getElem?_replicate]
  marks_lt := by simp [Array.getElem?_replicate]

/-- The walk with one more step, to a slot it has not met. -/
def visit {n : Nat} (t : Trail n) (id : InstrId) (h : t.marks[id.slot]? = some false) :
    Trail n where
  marks := t.marks.setIfInBounds id.slot true
  order := t.order.push id
  size_marks := by simp [t.size_marks]
  nodup := by
    have : id ∉ t.order.toList := fun m => by
      have := (t.mem_order id).1 m
      simp [h] at this
    rw [Array.toList_push, List.nodup_append]
    exact ⟨t.nodup, by simp, by grind⟩
  mem_order := fun other => by
    have hlt : id.slot < t.marks.size := by
      rcases Nat.lt_or_ge id.slot t.marks.size with h' | h'
      · exact h'
      · simp [Array.getElem?_eq_none h'] at h
    by_cases e : other = id
    · subst e; simp [hlt]
    · have : id.slot ≠ other.slot := fun s => e (InstrId.slot_injective s).symm
      have m := t.mem_order other
      simp only [Array.toList_push, List.mem_append, List.mem_singleton, e, or_false]
      rw [m, Array.getElem?_setIfInBounds]
      simp [this]
  marks_lt := fun m hm => by
    by_cases e : id.slot = m
    · exact e ▸ id.slot_lt
    · rw [Array.getElem?_setIfInBounds, if_neg e] at hm
      exact t.marks_lt m hm

end Trail

namespace Chain

/-- The attached slot of a handle. -/
def node? (c : Chain) (id : InstrId) : Option ChainNode :=
  match c.nodes[id.slot]? with
  | some node => if node.attached then some node else none
  | none => none

/-- How many slots are marked as attached. -/
def attachedCount (c : Chain) : Nat := c.nodes.countP (·.attached)

/-- The walk along the links from `cursor`, for at most `steps` steps. -/
def followFrom (c : Chain) : (steps : Nat) → Trail c.nodes.size → (cursor : Option InstrId) →
    Except Malformation (Trail c.nodes.size)
  | _, t, none => .ok t
  | 0, _, some id => .error (.linkedTwice id)
  | steps + 1, t, some id =>
    match c.node? id with
    | none => .error (.missingLink id)
    | some node =>
      if h : t.marks[id.slot]? = some false then
        if node.prev = t.order.back? then c.followFrom steps (t.visit id h) node.next
        else .error (.brokenBackLink id)
      else .error (.linkedTwice id)

/-- The walk along the links from the head. A walk that meets no slot twice
takes at most one step a slot. -/
def follow (c : Chain) : Except Malformation (Trail c.nodes.size) :=
  c.followFrom (c.nodes.size + 1) (Trail.start _) c.head

end Chain

namespace InstructionList

/-- The slots of a chain, attached exactly where the walk came by. -/
def slotsOf (c : Chain) (t : Trail c.nodes.size) : Array Slot :=
  c.nodes.mapIdx fun n node =>
    ⟨node.instruction,
      if t.marks[n]? = some true then .attached else .detached node.prev node.next⟩

theorem attachedAt_slotsOf (c : Chain) (t : Trail c.nodes.size) (id : InstrId) :
    Slot.attachedAt (slotsOf c t) id = true ↔ t.marks[id.slot]? = some true := by
  have hsize := t.size_marks
  unfold Slot.attachedAt slotsOf
  rw [Array.getElem?_mapIdx]
  rcases Nat.lt_or_ge id.slot c.nodes.size with h | h
  · rw [Array.getElem?_eq_getElem h]
    by_cases m : t.marks[id.slot]? = some true <;> simp [m]
  · rw [Array.getElem?_eq_none h, Array.getElem?_eq_none (by omega)]
    simp

theorem addressed_slotsOf (c : Chain) (t : Trail c.nodes.size) :
    Slot.Addressed (slotsOf c t) := by
  intro n slot hslot hplace
  unfold slotsOf at hslot
  rw [Array.getElem?_mapIdx] at hslot
  obtain ⟨node, -, rfl⟩ := Option.map_eq_some_iff.mp hslot
  by_cases hmark : t.marks[n]? = some true
  · exact t.marks_lt n hmark
  · rw [if_neg hmark] at hplace
    cases hplace

/-- The list of a chain, or what is wrong with the links. -/
def ofChain (c : Chain) : Except Malformation InstructionList :=
  match c.follow with
  | .error fault => .error fault
  | .ok t =>
    if t.order.back? = c.tail then
      if t.order.size = c.length.toNat ∧ c.attachedCount = c.length.toNat then
        .ok {
          slots := slotsOf c t
          order := t.order
          nodup := t.nodup
          mem_order := fun id => by rw [attachedAt_slotsOf, t.mem_order]
          addressed := addressed_slotsOf c t }
      else .error (.wrongCount t.order.size c.attachedCount c.length.toNat)
    else .error .wrongTail

/-- The neighbours of each attached slot. -/
def neighbours (l : InstructionList) : Array (Option InstrId × Option InstrId) :=
  (List.range l.order.size).foldl
    (fun links n =>
      match l.order[n]? with
      | some id =>
        links.setIfInBounds id.slot (if n = 0 then none else l.order[n - 1]?, l.order[n + 1]?)
      | none => links)
    (Array.replicate l.slots.size (none, none))

/-- The list with its links written out. -/
def toChain (l : InstructionList) : Chain :=
  let links := l.neighbours
  { nodes := l.slots.mapIdx fun n slot =>
      match slot.place with
      | .attached =>
        let (prev, next) := links[n]?.getD (none, none)
        ⟨slot.instruction, prev, next, true⟩
      | .detached back forward => ⟨slot.instruction, back, forward, false⟩
    head := l.first?
    tail := l.last?
    length := UInt64.ofNat l.length }

end InstructionList

end CilWeave
