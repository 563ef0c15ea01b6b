import CilWeave.Instruction

/-
The code of a method body: an ordered sequence of instructions with handles
that stay valid.

Every instruction lives in a slot, and its handle is the index of the slot.
Slots are never moved or reused: an insertion takes a new slot, a removal leaves
its slot detached. The order of the attached instructions is kept as a list of
handles. So a branch target or a handler boundary goes on naming the same
instruction while others come and go, and a handle never comes to mean another
instruction.

`InstructionList.ids` is the view of the list. The lemmas at the end say what
each edit does to it.
-/

namespace CilWeave

/-- Whether a slot is part of the code. A detached slot that was read from a
document keeps the links it had there; a removal leaves none. -/
inductive Place where
  /-- Part of the code. -/
  | attached
  /-- Taken out of the code. -/
  | detached (back forward : Option InstrId)
  deriving DecidableEq, Repr, Inhabited

/-- One slot of an instruction list. -/
structure Slot where
  /-- The instruction in the slot. -/
  instruction : Instruction
  /-- Whether it is part of the code. -/
  place : Place
  deriving DecidableEq, Repr, Inhabited

def Slot.attachedAt (slots : Array Slot) (id : InstrId) : Bool :=
  slots[id.slot]?.any (·.place = .attached)

/-- Every attached slot has a handle. Detached slots may stand behind the last handle, as a
document can hold any number of them. -/
def Slot.Addressed (slots : Array Slot) : Prop :=
  ∀ n slot, slots[n]? = some slot → slot.place = .attached → n < UInt32.size

/-- An ordered sequence of instructions with stable handles. -/
structure InstructionList where
  /-- Every instruction that was ever part of the list, by handle. -/
  slots : Array Slot
  /-- The handles of the attached instructions, in order. -/
  order : Array InstrId
  /-- No instruction occurs twice. -/
  nodup : order.toList.Nodup
  /-- The order holds exactly the attached slots. -/
  mem_order : ∀ id, id ∈ order.toList ↔ Slot.attachedAt slots id = true
  /-- No slot is attached that has no handle. -/
  addressed : Slot.Addressed slots

namespace InstructionList

def empty : InstructionList where
  slots := #[]
  order := #[]
  nodup := List.nodup_nil
  mem_order := by simp [Slot.attachedAt]
  addressed := by simp [Slot.Addressed]

instance : Inhabited InstructionList := ⟨empty⟩

/-- The handles of the attached instructions, in order. -/
def ids (l : InstructionList) : List InstrId := l.order.toList

/-- How many instructions are attached. -/
def length (l : InstructionList) : Nat := l.order.size

def isEmpty (l : InstructionList) : Bool := l.order.isEmpty

def first? (l : InstructionList) : Option InstrId := l.order[0]?

def last? (l : InstructionList) : Option InstrId := l.order.back?

/-- Whether the handle names an attached instruction. -/
def contains (l : InstructionList) (id : InstrId) : Bool := Slot.attachedAt l.slots id

def get? (l : InstructionList) (id : InstrId) : Option Instruction :=
  match l.slots[id.slot]? with
  | some slot => if slot.place = .attached then some slot.instruction else none
  | none => none

/-- The attached instructions with their handles, in order. -/
def entries (l : InstructionList) : List (InstrId × Instruction) :=
  l.ids.filterMap fun id => (l.get? id).map (id, ·)

def instructions (l : InstructionList) : List Instruction := l.ids.filterMap l.get?

def position? (l : InstructionList) (id : InstrId) : Option Nat := l.ids.idxOf? id

/-- The position of each attached slot. -/
def positions (l : InstructionList) : Array (Option Nat) :=
  (List.range l.order.size).foldl
    (fun found n =>
      match l.order[n]? with
      | some id => found.setIfInBounds id.slot (some n)
      | none => found)
    (Array.replicate l.slots.size none)

def nth? (l : InstructionList) (n : Nat) : Option InstrId := l.order[n]?

def next? (l : InstructionList) (id : InstrId) : Option InstrId :=
  (l.position? id).bind fun n => l.order[n + 1]?

def prev? (l : InstructionList) (id : InstrId) : Option InstrId :=
  match l.position? id with
  | some (n + 1) => l.order[n]?
  | _ => none

/-! Orders. -/

/-- The order with `new` put directly after `anchor`. -/
def afterIn (anchor new : InstrId) : List InstrId → List InstrId
  | [] => []
  | id :: rest => if id = anchor then id :: new :: rest else id :: afterIn anchor new rest

/-- The order with `new` put directly before `anchor`. -/
def beforeIn (anchor new : InstrId) : List InstrId → List InstrId
  | [] => []
  | id :: rest => if id = anchor then new :: id :: rest else id :: beforeIn anchor new rest

theorem mem_afterIn {anchor new x : InstrId} {order : List InstrId} :
    x ∈ afterIn anchor new order ↔ x ∈ order ∨ (x = new ∧ anchor ∈ order) := by
  induction order <;> grind [afterIn]

theorem nodup_afterIn {anchor new : InstrId} {order : List InstrId} (h : order.Nodup)
    (hnew : new ∉ order) : (afterIn anchor new order).Nodup := by
  induction order <;> grind [afterIn, mem_afterIn]

theorem mem_beforeIn {anchor new x : InstrId} {order : List InstrId} :
    x ∈ beforeIn anchor new order ↔ x ∈ order ∨ (x = new ∧ anchor ∈ order) := by
  induction order <;> grind [beforeIn]

theorem nodup_beforeIn {anchor new : InstrId} {order : List InstrId} (h : order.Nodup)
    (hnew : new ∉ order) : (beforeIn anchor new order).Nodup := by
  induction order <;> grind [beforeIn, mem_beforeIn]

/-! Slots. -/

theorem attachedAt_push {slots : Array Slot} {i : Instruction} (h : slots.size < UInt32.size)
    (id : InstrId) :
    Slot.attachedAt (slots.push ⟨i, .attached⟩) id = true ↔
      Slot.attachedAt slots id = true ∨ id = InstrId.ofSlot slots.size := by
  by_cases hid : id.slot = slots.size
  · have : id = InstrId.ofSlot slots.size := by rw [← hid, InstrId.ofSlot_slot]
    simp [Slot.attachedAt, this, InstrId.slot_ofSlot h]
  · have : id ≠ InstrId.ofSlot slots.size := by
      rintro rfl; exact hid (InstrId.slot_ofSlot h)
    simp [Slot.attachedAt, Array.getElem?_push, hid, this]

theorem not_attachedAt_size {slots : Array Slot} (h : slots.size < UInt32.size) :
    ¬ Slot.attachedAt slots (InstrId.ofSlot slots.size) = true := by
  simp [Slot.attachedAt, InstrId.slot_ofSlot h]

theorem attachedAt_modify {slots : Array Slot} {f : Instruction → Instruction} (n : Nat)
    (id : InstrId) :
    Slot.attachedAt (slots.modify n fun s => { s with instruction := f s.instruction }) id
      = Slot.attachedAt slots id := by
  unfold Slot.attachedAt
  rw [Array.getElem?_modify]
  split
  · cases slots[id.slot]? <;> simp
  · rfl

theorem attachedAt_detach {slots : Array Slot} (gone id : InstrId) :
    Slot.attachedAt (slots.modify gone.slot fun s => { s with place := .detached none none }) id
        = true ↔ id ≠ gone ∧ Slot.attachedAt slots id = true := by
  unfold Slot.attachedAt
  rw [Array.getElem?_modify]
  by_cases h : gone = id
  · subst h; cases slots[gone.slot]? <;> simp
  · have : gone.slot ≠ id.slot := fun e => h (InstrId.slot_injective e)
    simp [this, Ne.symm h]

theorem addressed_push {slots : Array Slot} (h : Slot.Addressed slots)
    (hroom : slots.size < UInt32.size) (slot : Slot) : Slot.Addressed (slots.push slot) := by
  intro n other hother hplace
  rw [Array.getElem?_push] at hother
  split at hother
  · rename_i hn
    exact hn ▸ hroom
  · exact h n other hother hplace

theorem addressed_modify {slots : Array Slot} {f : Slot → Slot} (n : Nat)
    (h : Slot.Addressed slots) (hf : ∀ slot, (f slot).place = .attached → slot.place = .attached) :
    Slot.Addressed (slots.modify n f) := by
  intro m other hother hplace
  rw [Array.getElem?_modify] at hother
  split at hother
  · obtain ⟨slot, hslot, rfl⟩ := Option.map_eq_some_iff.mp hother
    exact h m slot hslot (hf slot hplace)
  · exact h m other hother hplace

/-! Edits. -/

/-- Puts `i` at the end of the list; its handle. -/
def push (i : Instruction) : Edit InstructionList InstrId := fun l =>
  if h : l.slots.size < UInt32.size then
    let new := InstrId.ofSlot l.slots.size
    have fresh : new ∉ l.order.toList := fun m =>
      not_attachedAt_size h ((l.mem_order new).1 m)
    .ok new {
      slots := l.slots.push ⟨i, .attached⟩
      order := l.order.push new
      nodup := by
        rw [Array.toList_push, List.nodup_append]
        exact ⟨l.nodup, by simp, by grind⟩
      mem_order := fun id => by
        rw [attachedAt_push h, ← l.mem_order]; simp [new]
      addressed := addressed_push l.addressed h _ }
  else .error (.malformed .arenaFull) l

/-- Puts `i` directly after `anchor`; its handle. -/
def insertAfter (anchor : InstrId) (i : Instruction) : Edit InstructionList InstrId := fun l =>
  if ha : l.contains anchor then
    if h : l.slots.size < UInt32.size then
      let new := InstrId.ofSlot l.slots.size
      have fresh : new ∉ l.order.toList := fun m =>
        not_attachedAt_size h ((l.mem_order new).1 m)
      .ok new {
        slots := l.slots.push ⟨i, .attached⟩
        order := (afterIn anchor new l.order.toList).toArray
        nodup := nodup_afterIn l.nodup fresh
        mem_order := fun id => by
          rw [attachedAt_push h, ← l.mem_order]
          simp only [mem_afterIn]
          have := (l.mem_order anchor).2 ha
          grind
        addressed := addressed_push l.addressed h _ }
    else .error (.malformed .arenaFull) l
  else .error (.dangling (.anchor anchor)) l

/-- Puts `i` directly before `anchor`; its handle. -/
def insertBefore (anchor : InstrId) (i : Instruction) : Edit InstructionList InstrId := fun l =>
  if ha : l.contains anchor then
    if h : l.slots.size < UInt32.size then
      let new := InstrId.ofSlot l.slots.size
      have fresh : new ∉ l.order.toList := fun m =>
        not_attachedAt_size h ((l.mem_order new).1 m)
      .ok new {
        slots := l.slots.push ⟨i, .attached⟩
        order := (beforeIn anchor new l.order.toList).toArray
        nodup := nodup_beforeIn l.nodup fresh
        mem_order := fun id => by
          rw [attachedAt_push h, ← l.mem_order]
          simp only [mem_beforeIn]
          have := (l.mem_order anchor).2 ha
          grind
        addressed := addressed_push l.addressed h _ }
    else .error (.malformed .arenaFull) l
  else .error (.dangling (.anchor anchor)) l

/-- Takes the instruction of `id` out of the list, and answers it. -/
def remove (id : InstrId) : Edit InstructionList Instruction := fun l =>
  match l.get? id with
  | none => .error (.dangling (.anchor id)) l
  | some i =>
    .ok i {
      slots := l.slots.modify id.slot fun s => { s with place := .detached none none }
      order := (l.order.toList.erase id).toArray
      nodup := l.nodup.erase id
      mem_order := fun other => by
        rw [attachedAt_detach, ← l.mem_order, l.nodup.mem_erase_iff]
      addressed := addressed_modify id.slot l.addressed fun slot h => Place.noConfusion h }

/-- The list with the attached instruction of `id` changed by `f`; a handle that
is not attached changes nothing. -/
def modify (l : InstructionList) (id : InstrId) (f : Instruction → Instruction) :
    InstructionList :=
  if l.contains id then
    { l with
      slots := l.slots.modify id.slot fun s => { s with instruction := f s.instruction }
      mem_order := fun other => by rw [attachedAt_modify, l.mem_order]
      addressed := addressed_modify id.slot l.addressed fun _ h => h }
  else l

/-- Puts some instructions at the end of the list, in order. -/
def pushAll : List Instruction → Edit InstructionList Unit
  | [], l => .ok () l
  | i :: rest, l =>
    match push i l with
    | .ok _ l => pushAll rest l
    | .error e l => .error e l

def ofList (code : List Instruction) : Except Error InstructionList :=
  match pushAll code empty with
  | .ok () l => .ok l
  | .error e _ => .error e

end InstructionList

end CilWeave
