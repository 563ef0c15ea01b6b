import CilWeave.Proofs.InstructionList.Links
import CilWeave.Proofs.InstructionList.Sequence

/-
Edits by links.

In the linked form an insertion takes a new slot and turns up to two links of its
neighbours to it, a removal joins the neighbours of the removed slot, and both keep the
ends and the length of the chain. The edits below do no more than that. On the linked
form of a list they give the linked form of the edited list (`edit_toChain`), so after
any run of edits the links still show the plain sequence (`run_refines_sequence`), and
no link leads to a slot that was taken out.
-/

namespace CilWeave

namespace Chain

/-! ## Turning links -/

/-- The chain with the node of an attached handle changed. -/
def adjust (c : Chain) (id : InstrId) (f : ChainNode → ChainNode) : Chain :=
  { c with nodes := c.nodes.modify id.slot fun node => if node.attached then f node else node }

/-- The chain with another link back from `id`, if there is such an instruction. -/
def setPrev (c : Chain) (id prev : Option InstrId) : Chain :=
  match id with
  | some id => c.adjust id fun node => { node with prev }
  | none => c

/-- The chain with another link forth from `id`, if there is such an instruction. -/
def setNext (c : Chain) (id next : Option InstrId) : Chain :=
  match id with
  | some id => c.adjust id fun node => { node with next }
  | none => c

/-- The handle of the next new slot. -/
def fresh (c : Chain) : InstrId := .ofSlot c.nodes.size

/-- The chain with a new slot between two neighbours. -/
def spliced (c : Chain) (i : Instruction) (prev next : Option InstrId) : Chain :=
  let grown := { c with nodes := c.nodes.push ⟨i, prev, next, true⟩, length := c.length + 1 }
  (grown.setNext prev c.fresh).setPrev next c.fresh

/-! ## Edits -/

/-- Puts `i` into a new slot between two neighbours; its handle. -/
def splice (i : Instruction) (prev next : Option InstrId) : Edit Chain InstrId := fun c =>
  if c.nodes.size < UInt32.size then .ok c.fresh (c.spliced i prev next)
  else .error (.malformed .arenaFull) c

/-- Puts `i` at the end of the chain; its handle. -/
def push (i : Instruction) : Edit Chain InstrId := fun c =>
  match splice i c.tail none c with
  | .ok new c => .ok new { c with head := c.head.or new, tail := new }
  | .error e c => .error e c

/-- Puts `i` directly after `anchor`; its handle. -/
def insertAfter (anchor : InstrId) (i : Instruction) : Edit Chain InstrId := fun c =>
  match c.node? anchor with
  | some node =>
    match splice i anchor node.next c with
    | .ok new c => .ok new { c with tail := if node.next.isSome then c.tail else new }
    | .error e c => .error e c
  | none => .error (.dangling (.anchor anchor)) c

/-- Puts `i` directly before `anchor`; its handle. -/
def insertBefore (anchor : InstrId) (i : Instruction) : Edit Chain InstrId := fun c =>
  match c.node? anchor with
  | some node =>
    match splice i node.prev anchor c with
    | .ok new c => .ok new { c with head := if node.prev.isSome then c.head else new }
    | .error e c => .error e c
  | none => .error (.dangling (.anchor anchor)) c

/-- Takes the instruction of `id` out and joins its neighbours; the instruction. -/
def remove (id : InstrId) : Edit Chain Instruction := fun c =>
  match c.node? id with
  | some node =>
    let c := c.adjust id fun node => ⟨node.instruction, none, none, false⟩
    let c := (c.setNext node.prev node.next).setPrev node.next node.prev
    .ok node.instruction { c with
      head := if node.prev.isSome then c.head else node.next
      tail := if node.next.isSome then c.tail else node.prev
      length := c.length - 1 }
  | none => .error (.dangling (.anchor id)) c

def assign (c : Chain) (id : InstrId) (i : Instruction) : Chain :=
  c.adjust id fun node => { node with instruction := i }

def edit (c : Chain) : ListEdit → EditAnswer × Chain
  | .push i => EditAnswer.of .inserted (push i c)
  | .insertAfter anchor i => EditAnswer.of .inserted (insertAfter anchor i c)
  | .insertBefore anchor i => EditAnswer.of .inserted (insertBefore anchor i c)
  | .remove id => EditAnswer.of .removed (remove id c)
  | .assign id i => (if (c.node? id).isSome then .assigned else .absent, c.assign id i)

def run : List ListEdit → Chain → List EditAnswer × Chain
  | [], c => ([], c)
  | e :: rest, c =>
    let (answer, c) := c.edit e
    let (answers, c) := run rest c
    (answer :: answers, c)

/-! ## What the steps change -/

theorem getElem?_adjust (c : Chain) (id : InstrId) (f : ChainNode → ChainNode) (n : Nat) :
    (c.adjust id f).nodes[n]? = (c.nodes[n]?).map fun node =>
      if id.slot = n ∧ node.attached = true then f node else node := by
  unfold adjust
  rw [Array.getElem?_modify]
  by_cases h : id.slot = n
  · simp [h]
  · simp [h]

theorem getElem?_setPrev (c : Chain) (id prev : Option InstrId) (n : Nat) :
    (c.setPrev id prev).nodes[n]? = (c.nodes[n]?).map fun node =>
      if id.map InstrId.slot = some n ∧ node.attached = true then { node with prev }
      else node := by
  cases id with
  | none => simp [setPrev]
  | some id => simp [setPrev, getElem?_adjust]

theorem getElem?_setNext (c : Chain) (id next : Option InstrId) (n : Nat) :
    (c.setNext id next).nodes[n]? = (c.nodes[n]?).map fun node =>
      if id.map InstrId.slot = some n ∧ node.attached = true then { node with next }
      else node := by
  cases id with
  | none => simp [setNext]
  | some id => simp [setNext, getElem?_adjust]

@[simp] theorem setPrev_ends (c : Chain) (id prev : Option InstrId) :
    (c.setPrev id prev).head = c.head ∧ (c.setPrev id prev).tail = c.tail ∧
      (c.setPrev id prev).length = c.length := by
  cases id <;> exact ⟨rfl, rfl, rfl⟩

@[simp] theorem setNext_ends (c : Chain) (id next : Option InstrId) :
    (c.setNext id next).head = c.head ∧ (c.setNext id next).tail = c.tail ∧
      (c.setNext id next).length = c.length := by
  cases id <;> exact ⟨rfl, rfl, rfl⟩

theorem spliced_ends (c : Chain) (i : Instruction) (prev next : Option InstrId) :
    (c.spliced i prev next).head = c.head ∧ (c.spliced i prev next).tail = c.tail ∧
      (c.spliced i prev next).length = c.length + 1 := by
  simp [spliced]

end Chain

namespace InstructionList

variable {l l' : InstructionList} {i : Instruction} {id : InstrId} {front back : List InstrId}

theorem length_toChain (l : InstructionList) : l.toChain.length = UInt64.ofNat l.ids.length := rfl

theorem size_toChain (l : InstructionList) : l.toChain.nodes.size = l.slots.size :=
  Array.size_mapIdx

theorem getElem?_toChain (n : Nat) :
    l.toChain.nodes[n]? = (l.slots[n]?).map (l.nodeOf n) := by
  rw [nodes_toChain, Array.getElem?_mapIdx]

/-- The result of an edit of a list, with the links of the list it leaves. -/
def linked {α : Type} : EStateM.Result Error InstructionList α → EStateM.Result Error Chain α
  | .ok a l => .ok a l.toChain
  | .error e l => .error e l.toChain

theorem of_linked {α : Type} (answer : α → EditAnswer)
    (result : EStateM.Result Error InstructionList α) : EditAnswer.of answer (linked result) =
      ((EditAnswer.of answer result).1, (EditAnswer.of answer result).2.toChain) := by
  cases result <;> rfl

theorem map_slot_eq_some {x : Option InstrId} {n : Nat} (hn : n < UInt32.size) :
    x.map InstrId.slot = some n ↔ x = some (.ofSlot n) := by
  cases x with
  | none => simp
  | some id =>
    simp only [Option.map_some, Option.some.injEq]
    exact ⟨fun h => by rw [← h, InstrId.ofSlot_slot], fun h => by rw [h, InstrId.slot_ofSlot hn]⟩

/-! ## Insertions -/

/-- A new slot between two neighbours is what the linked form of the longer list shows. -/
theorem nodes_spliced (h : l.Inserts l' i front back) :
    (l.toChain.spliced i front.getLast? back.head?).nodes = l'.toChain.nodes := by
  have hroom := h.room
  have hsize : l'.slots.size = l.slots.size + 1 := by rw [h.slots, Array.size_push]
  have hnodes := l.size_toChain
  refine Array.ext_getElem? fun n => ?_
  rw [getElem?_toChain, h.slots]
  simp only [Chain.spliced, Chain.fresh, Chain.getElem?_setPrev, Chain.getElem?_setNext, hnodes,
    Array.getElem?_push, getElem?_toChain]
  by_cases hn : n = l.slots.size
  · -- The new slot is a neighbour of neither of its neighbours yet, so they turn no link of it.
    subst hn
    have hfresh := h.fresh
    rw [h.before] at hfresh
    have hlast : front.getLast? ≠ some (.ofSlot l.slots.size) := fun e =>
      hfresh (List.mem_append_left _ (List.mem_of_getLast? e))
    have hhead : back.head? ≠ some (.ofSlot l.slots.size) := fun e =>
      hfresh (List.mem_append_right _ (List.mem_of_head? e))
    simp only [map_slot_eq_some hroom, hlast, hhead, false_and, if_false, if_true,
      Option.map_some, nodeOf, prev?_of_split h.after, next?_of_split h.after]
  · rw [if_neg hn, if_neg hn]
    cases hslot : l.slots[n]? with
    | none => rfl
    | some slot =>
      obtain ⟨hlt, -⟩ := Array.getElem?_eq_some_iff.mp hslot
      simp only [Option.map_some, Option.some.injEq, map_slot_eq_some (Nat.lt_trans hlt hroom)]
      unfold nodeOf
      cases slot.place with
      | detached b f => simp
      | attached =>
        have hne : InstrId.ofSlot n ≠ .ofSlot l.slots.size := fun e => hn <| by
          rw [← InstrId.slot_ofSlot (Nat.lt_trans hlt hroom), e, InstrId.slot_ofSlot hroom]
        simp only [prev?_between h.before h.after, next?_between h.before h.after, if_neg hne,
          and_true]
        by_cases hlast : front.getLast? = some (.ofSlot n)
        · by_cases hhead : back.head? = some (.ofSlot n) <;> simp [hlast, hhead]
        · by_cases hhead : back.head? = some (.ofSlot n) <;> simp [hlast, hhead]

/-- A new slot between two neighbours gives the linked form of the longer list, once the
ends are right. -/
theorem spliced_toChain (h : l.Inserts l' i front back) {head tail : Option InstrId}
    (hhead : head = l'.ids.head?) (htail : tail = l'.ids.getLast?) :
    { l.toChain.spliced i front.getLast? back.head? with head := head, tail := tail } =
      l'.toChain := by
  have hlength : l'.ids.length = l.ids.length + 1 := by
    rw [h.after, h.before]
    simp [Nat.add_assoc]
  refine eq_toChain (nodes_spliced h) hhead htail ?_
  show (l.toChain.spliced i front.getLast? back.head?).length = _
  rw [(Chain.spliced_ends ..).2.2, length_toChain, hlength, UInt64.ofNat_add]
  rfl

theorem splice_of_lt (i : Instruction) (prev next : Option InstrId)
    (hroom : l.slots.size < UInt32.size) : Chain.splice i prev next l.toChain =
      .ok (.ofSlot l.slots.size) (l.toChain.spliced i prev next) := by
  unfold Chain.splice Chain.fresh
  rw [size_toChain, if_pos hroom]

theorem splice_of_full (i : Instruction) (prev next : Option InstrId)
    (hfull : ¬ l.slots.size < UInt32.size) :
    Chain.splice i prev next l.toChain = .error (.malformed .arenaFull) l.toChain := by
  unfold Chain.splice
  rw [size_toChain, if_neg hfull]

theorem push_toChain (l : InstructionList) (i : Instruction) :
    Chain.push i l.toChain = linked (push i l) := by
  unfold Chain.push
  by_cases hroom : l.slots.size < UInt32.size
  · obtain ⟨new, l', hl'⟩ := exists_push i hroom
    obtain ⟨rfl, hinserts⟩ := push_eq_ok hl'
    have hends := Chain.spliced_ends l.toChain i l.ids.getLast? none
    simp only [splice_of_lt i _ _ hroom, hl', tail_toChain, hends.1, head_toChain]
    refine congrArg (EStateM.Result.ok _) (spliced_toChain hinserts ?_ ?_)
    · rw [hinserts.after]
      cases l.ids <;> rfl
    · rw [hinserts.after, List.getLast?_concat]
  · rw [splice_of_full i _ _ hroom, push, dif_neg hroom]
    rfl

theorem insertAfter_toChain (anchor : InstrId) (i : Instruction) :
    Chain.insertAfter anchor i l.toChain = linked (insertAfter anchor i l) := by
  unfold Chain.insertAfter
  rw [node?_toChain]
  by_cases hid : anchor ∈ l.ids
  · obtain ⟨a, ha⟩ := get?_of_mem hid
    rw [ha, Option.map_some]
    by_cases hroom : l.slots.size < UInt32.size
    · obtain ⟨front, back, hsplit⟩ := List.append_of_mem hid
      obtain ⟨new, l', hl'⟩ := exists_insertAfter i hid hroom
      obtain ⟨rfl, hinserts⟩ := insertAfter_eq_ok hl' hsplit
      have hends := Chain.spliced_ends l.toChain i (some anchor) back.head?
      simp only [splice_of_lt i _ _ hroom, hl', next?_of_split hsplit, hends.1, hends.2.1,
        head_toChain, tail_toChain]
      rw [← List.getLast?_concat (l := front) (a := anchor)]
      refine congrArg (EStateM.Result.ok _) (spliced_toChain hinserts ?_ ?_)
      · rw [hinserts.after, hsplit]
        cases front <;> rfl
      · rw [hinserts.after, hsplit]
        cases back <;> simp
    · simp only [splice_of_full i _ _ hroom, insertAfter, dif_pos (mem_ids.mp hid), dif_neg hroom]
      rfl
  · rw [get?_eq_none hid, insertAfter_of_not_mem i hid]
    rfl

theorem insertBefore_toChain (anchor : InstrId) (i : Instruction) :
    Chain.insertBefore anchor i l.toChain = linked (insertBefore anchor i l) := by
  unfold Chain.insertBefore
  rw [node?_toChain]
  by_cases hid : anchor ∈ l.ids
  · obtain ⟨a, ha⟩ := get?_of_mem hid
    rw [ha, Option.map_some]
    by_cases hroom : l.slots.size < UInt32.size
    · obtain ⟨front, back, hsplit⟩ := List.append_of_mem hid
      obtain ⟨new, l', hl'⟩ := exists_insertBefore i hid hroom
      obtain ⟨rfl, hinserts⟩ := insertBefore_eq_ok hl' hsplit
      have hends := Chain.spliced_ends l.toChain i front.getLast? (some anchor)
      simp only [splice_of_lt i _ _ hroom, hl', prev?_of_split hsplit, hends.1, hends.2.1,
        head_toChain, tail_toChain]
      rw [← List.head?_cons (l := back) (a := anchor)]
      refine congrArg (EStateM.Result.ok _) (spliced_toChain hinserts ?_ ?_)
      · rw [hinserts.after, hsplit]
        cases front <;> simp
      · rw [hinserts.after, hsplit]
        cases back <;> simp
    · simp only [splice_of_full i _ _ hroom, insertBefore, dif_pos (mem_ids.mp hid), dif_neg hroom]
      rfl
  · rw [get?_eq_none hid, insertBefore_of_not_mem i hid]
    rfl

/-! ## Removal and assignment -/

/-- A slot taken out, and its neighbours joined, is what the linked form of the shorter list
shows. -/
theorem nodes_unlink (hroom : l.slots.size ≤ UInt32.size) (hl : l.ids = front ++ id :: back)
    (hl' : l'.ids = front ++ back)
    (hslots : l'.slots = l.slots.modify id.slot fun s => { s with place := .detached none none }) :
    (((l.toChain.adjust id fun node => ⟨node.instruction, none, none, false⟩).setNext
      front.getLast? back.head?).setPrev back.head? front.getLast?).nodes = l'.toChain.nodes := by
  have hsize : l'.slots.size = l.slots.size := by rw [hslots, Array.size_modify]
  refine Array.ext_getElem? fun n => ?_
  rw [getElem?_toChain, hslots, Array.getElem?_modify]
  simp only [Chain.getElem?_setPrev, Chain.getElem?_setNext, Chain.getElem?_adjust,
    getElem?_toChain]
  cases hslot : l.slots[n]? with
  | none => simp
  | some slot =>
    obtain ⟨hlt, -⟩ := Array.getElem?_eq_some_iff.mp hslot
    have hn : n < UInt32.size := by omega
    simp only [Option.map_some, map_slot_eq_some hn]
    by_cases hid : id.slot = n
    · have hplace : slot.place = .attached := by
        refine (ofSlot_mem_ids hn hslot).mp ?_
        rw [← hid, InstrId.ofSlot_slot, hl]
        simp
      simp [hid, nodeOf, hplace]
    · have hne : InstrId.ofSlot n ≠ id := fun e => hid (by rw [← e, InstrId.slot_ofSlot hn])
      simp only [hid, false_and, if_false, nodeOf, Option.map_some]
      cases hplace : slot.place with
      | detached b f => simp
      | attached =>
        simp only [prev?_joined hl' hl hne, next?_joined hl' hl hne, and_true]
        by_cases hlast : front.getLast? = some (.ofSlot n)
        · by_cases hhead : back.head? = some (.ofSlot n) <;> simp [hlast, hhead]
        · by_cases hhead : back.head? = some (.ofSlot n) <;> simp [hlast, hhead]

theorem remove_toChain (hroom : l.slots.size ≤ UInt32.size) (id : InstrId) :
    Chain.remove id l.toChain = linked (remove id l) := by
  unfold Chain.remove
  rw [node?_toChain]
  by_cases hid : id ∈ l.ids
  · obtain ⟨i, hi⟩ := get?_of_mem hid
    obtain ⟨front, back, hsplit⟩ := List.append_of_mem hid
    obtain ⟨l', hl', hids, hslots⟩ := exists_remove hi
    have hids : l'.ids = front ++ back := by
      rw [hids, hsplit, List.erase_append_right _ (not_mem_front hsplit), List.erase_cons_head]
    simp only [hi, Option.map_some, hl', prev?_of_split hsplit, next?_of_split hsplit,
      Chain.setPrev_ends, Chain.setNext_ends]
    refine congrArg (EStateM.Result.ok _) (eq_toChain ?_ ?_ ?_ ?_)
    · exact nodes_unlink hroom hsplit hids hslots
    · show (if front.getLast?.isSome then l.toChain.head else back.head?) = _
      rw [head_toChain, hsplit, hids]
      rcases List.eq_nil_or_concat front with rfl | ⟨front, x, rfl⟩
      · rfl
      · simp
    · show (if back.head?.isSome then l.toChain.tail else front.getLast?) = _
      rw [tail_toChain, hsplit, hids]
      cases back <;> simp
    · show l.toChain.length - 1 = _
      rw [length_toChain, hsplit, hids, List.length_append, List.length_cons, ← Nat.add_assoc,
        ← List.length_append, UInt64.ofNat_add]
      exact UInt64.add_sub_cancel _ _
  · rw [get?_eq_none hid, remove_of_not_mem hid]
    rfl

theorem nodeOf_congr (h : l.order = l'.order) : l.nodeOf = l'.nodeOf := by
  funext n slot
  unfold nodeOf prev? next? position? ids
  rw [h]

theorem assign_toChain (hroom : l.slots.size ≤ UInt32.size) (id : InstrId) (i : Instruction) :
    l.toChain.assign id i = (l.modify id fun _ => i).toChain := by
  have hsize := l.slots_modify id fun _ => i
  have horder : (l.modify id fun _ => i).order = l.order := Array.toList_inj.mp (ids_modify ..)
  refine eq_toChain ?_ ?_ ?_ ?_
  · refine Array.ext_getElem? fun n => ?_
    rw [Chain.assign, Chain.getElem?_adjust, getElem?_toChain, getElem?_toChain,
      nodeOf_congr horder]
    cases hslot : l.slots[n]? with
    | none =>
      have hn := Array.getElem?_eq_none_iff.mp hslot
      rw [Array.getElem?_eq_none (by omega)]
      rfl
    | some slot =>
      obtain ⟨hlt, -⟩ := Array.getElem?_eq_some_iff.mp hslot
      have hmem := ofSlot_mem_ids (by omega) hslot
      by_cases hid : id.slot = n
      · rw [← hid, InstrId.ofSlot_slot, mem_ids] at hmem
        unfold modify
        cases hplace : slot.place with
        | attached =>
          rw [if_pos (hmem.mpr hplace), Array.getElem?_modify, if_pos hid, hslot]
          simp [hid, nodeOf, hplace]
        | detached b f =>
          have hc : ¬ l.contains id = true := fun hc => by rw [hmem.mp hc] at hplace; cases hplace
          rw [if_neg hc, hslot]
          simp [nodeOf, hplace]
      · have hkept : (l.modify id fun _ => i).slots[n]? = l.slots[n]? := by
          unfold modify
          split
          · rw [Array.getElem?_modify, if_neg hid]
          · rfl
        rw [hkept, hslot]
        simp [hid]
  · rw [ids_modify]
    exact l.head_toChain
  · rw [ids_modify]
    exact l.tail_toChain
  · rw [ids_modify]
    rfl

/-! ## Runs -/

/-- An edit by links is that edit of the list. -/
theorem edit_toChain (hroom : l.slots.size ≤ UInt32.size) (e : ListEdit) :
    l.toChain.edit e = ((l.edit e).1, (l.edit e).2.toChain) := by
  cases e with
  | push i => simp only [Chain.edit, edit, push_toChain, of_linked]
  | insertAfter anchor i => simp only [Chain.edit, edit, insertAfter_toChain, of_linked]
  | insertBefore anchor i => simp only [Chain.edit, edit, insertBefore_toChain, of_linked]
  | remove id => simp only [Chain.edit, edit, remove_toChain hroom, of_linked]
  | assign id i =>
    have hisSome : (l.toChain.node? id).isSome = l.contains id := by
      rw [node?_toChain, Option.isSome_map, Bool.eq_iff_iff, contains_iff,
        Option.isSome_iff_exists]
    simp only [Chain.edit, edit, assign_toChain hroom, hisSome]

/-- A run of edits by links is that run on the list, as long as there are handles. -/
theorem run_toChain : ∀ (edits : List ListEdit) (l : InstructionList),
    (CodeSequence.run edits l.sequence).2.issued ≤ UInt32.size →
    Chain.run edits l.toChain = ((run edits l).1, (run edits l).2.toChain)
  | [], _, _ => rfl
  | e :: rest, l, hroom => by
    have hnow := Nat.le_trans (CodeSequence.le_issued_run (e :: rest) l.sequence) hroom
    have hlater := CodeSequence.le_issued_run rest (l.sequence.edit e).2
    obtain ⟨-, hsequence⟩ := l.edit_sequence e (Nat.le_trans hlater hroom)
    have ih := run_toChain rest (l.edit e).2
    rw [hsequence] at ih
    show ((l.toChain.edit e).1 :: (Chain.run rest (l.toChain.edit e).2).1,
      (Chain.run rest (l.toChain.edit e).2).2) = _
    rw [edit_toChain hnow, ih hroom]
    rfl

/-- What a handle gets that is not, or no longer, in the list: nothing, and no edit. -/
structure Refuses (l : InstructionList) (id : InstrId) : Prop where
  get? : l.get? id = none
  next? : l.next? id = none
  prev? : l.prev? id = none
  position? : l.position? id = none
  insertAfter : ∀ i, l.edit (.insertAfter id i) = (.refused (.dangling (.anchor id)), l)
  insertBefore : ∀ i, l.edit (.insertBefore id i) = (.refused (.dangling (.anchor id)), l)
  remove : l.edit (.remove id) = (.refused (.dangling (.anchor id)), l)
  assign : ∀ i, l.edit (.assign id i) = (.absent, l)

theorem refuses_of_not_mem (h : id ∉ l.ids) : l.Refuses id where
  get? := get?_eq_none h
  position? := position?_eq_none h
  next? := by
    unfold InstructionList.next?
    rw [position?_eq_none h]
    rfl
  prev? := by
    unfold InstructionList.prev?
    rw [position?_eq_none h]
  insertAfter i := by simp only [edit, insertAfter_of_not_mem i h, EditAnswer.of]
  insertBefore i := by simp only [edit, insertBefore_of_not_mem i h, EditAnswer.of]
  remove := by simp only [edit, remove_of_not_mem h, EditAnswer.of]
  assign i := by
    have hc : ¬ l.contains id = true := fun hc => h (mem_ids.mpr hc)
    simp only [edit, if_neg hc, modify_of_not_mem _ h]

end InstructionList

/-- What the links of a chain show is what a sequence says. -/
structure Chain.Answers (c : Chain) (s : CodeSequence) : Prop where
  first? : c.head = s.ids.head?
  last? : c.tail = s.ids.getLast?
  length : c.length.toNat = s.entries.length
  size : c.nodes.size = s.issued
  get? : ∀ id, (c.node? id).map (·.instruction) = s.entries.lookup id
  next? : ∀ id x, (c.node? id).bind (·.next) = some x ↔ s.Follows id x
  prev? : ∀ id x, (c.node? id).bind (·.prev) = some x ↔ s.Follows x id
  walk : ∃ t, c.follow = .ok t ∧ t.order.toList = s.ids

namespace InstructionList

variable {l : InstructionList} {id : InstrId}

theorem links_toChain (id : InstrId) :
    (l.toChain.node? id).bind (·.next) = l.next? id ∧
      (l.toChain.node? id).bind (·.prev) = l.prev? id := by
  rw [node?_toChain]
  by_cases hid : id ∈ l.ids
  · obtain ⟨i, hi⟩ := get?_of_mem hid
    rw [hi]
    exact ⟨rfl, rfl⟩
  · have hnothing := refuses_of_not_mem hid
    rw [hnothing.get?, hnothing.next?, hnothing.prev?]
    exact ⟨rfl, rfl⟩

theorem answers_toChain (l : InstructionList) : l.toChain.Answers l.sequence where
  first? := by rw [ids_sequence, head_toChain]
  last? := by rw [ids_sequence, tail_toChain]
  length := l.toNat_length_toChain.trans l.length_entries.symm
  size := l.size_toChain
  get? id := by
    have hlookup : l.sequence.entries.lookup id = l.get? id := l.lookup_entries id
    rw [node?_toChain, hlookup]
    cases l.get? id <;> rfl
  next? id x := by rw [(links_toChain id).1, l.answers_sequence.next?]
  prev? id x := by rw [(links_toChain id).2, l.answers_sequence.prev?]
  walk := by
    obtain ⟨t, hfollow, horder⟩ := follow_toChain
    exact ⟨t, hfollow, by rw [horder, ids_sequence]; rfl⟩

/-- A run of edits does to a list, and to its links, what it does to the plain sequence of
the list. The new handles have slots that were never in use, and a handle that is not in the
list afterwards gets nothing. -/
theorem run_refines_sequence (l : InstructionList) (edits : List ListEdit)
    (hroom : (CodeSequence.run edits l.sequence).2.issued ≤ UInt32.size) :
    let sequence := CodeSequence.run edits l.sequence
    let list := run edits l
    list.1 = sequence.1 ∧ list.2.sequence = sequence.2 ∧ list.2.Answers sequence.2 ∧
      (∀ c, ofChain c = .ok l → Chain.run edits c = (sequence.1, list.2.toChain)) ∧
      Chain.run edits l.toChain = (sequence.1, list.2.toChain) ∧
      list.2.toChain.Answers sequence.2 ∧
      (insertedHandles list.1).map InstrId.slot =
        List.range' l.slots.size (list.2.slots.size - l.slots.size) ∧
      ∀ id, id ∉ list.2.ids → list.2.Refuses id := by
  intro sequence list
  obtain ⟨hanswers, hsequence⟩ := run_sequence edits l hroom
  have hroom : sequence.2.issued ≤ UInt32.size := hroom
  have hgrows : l.slots.size ≤ sequence.2.issued := CodeSequence.le_issued_run edits l.sequence
  have hsize : list.2.slots.size = sequence.2.issued := congrArg CodeSequence.issued hsequence
  have hlinked : Chain.run edits l.toChain = (sequence.1, list.2.toChain) := by
    rw [run_toChain edits l hroom, hanswers]
  refine ⟨hanswers, hsequence, ?_, fun c hc => ?_, hlinked, ?_, ?_, fun id => refuses_of_not_mem⟩
  · rw [← hsequence]
    exact answers_sequence _
  · rw [← toChain_of_ofChain hc]
    exact hlinked
  · rw [← hsequence]
    exact answers_toChain _
  · rw [hanswers, CodeSequence.insertedHandles_run, List.map_map, hsize]
    -- The new slots are below 2^32, so each is the slot of its handle.
    refine (List.map_congr_left fun n hn => ?_).trans (List.map_id _)
    have hlt : n < l.slots.size + (sequence.2.issued - l.slots.size) := (List.mem_range'_1.mp hn).2
    exact InstrId.slot_ofSlot (by omega)

/-- A run that takes an instruction out and then tries to insert behind it: the handle stays
dead, and later insertions get new ones. -/
def wornEdits : List ListEdit :=
  [.push (.plain .nop), .push (.plain .ret), .insertAfter ⟨0⟩ (.plain .dup),
    .insertBefore ⟨0⟩ (.plain .ldnull), .remove ⟨2⟩, .insertAfter ⟨2⟩ (.plain .pop),
    .assign ⟨1⟩ (.plain .throw), .push (.plain .ret)]

theorem run_refines_sequence_worn :
    (CodeSequence.run wornEdits (sequence empty)).2.issued ≤ UInt32.size ∧
      (run wornEdits empty).1 = [.inserted ⟨0⟩, .inserted ⟨1⟩, .inserted ⟨2⟩, .inserted ⟨3⟩,
        .removed (.plain .dup), .refused (.dangling (.anchor ⟨2⟩)), .assigned, .inserted ⟨4⟩] ∧
      (run wornEdits empty).2.entries = [(⟨3⟩, .plain .ldnull), (⟨0⟩, .plain .nop),
        (⟨1⟩, .plain .throw), (⟨4⟩, .plain .ret)] ∧
      (run wornEdits empty).2.Refuses ⟨2⟩ ∧
      (run wornEdits empty).2.toChain = (Chain.run wornEdits ⟨#[], none, none, 0⟩).2 := by
  have hroom : (CodeSequence.run wornEdits (sequence empty)).2.issued ≤ UInt32.size := by decide
  obtain ⟨hanswers, hsequence, hshown, hread, -, -, -, hrefuses⟩ :=
    run_refines_sequence empty wornEdits hroom
  have hentries : (CodeSequence.run wornEdits (sequence empty)).2.entries =
      [(⟨3⟩, .plain .ldnull), (⟨0⟩, .plain .nop), (⟨1⟩, .plain .throw), (⟨4⟩, .plain .ret)] := by
    decide
  refine ⟨hroom, ?_, ?_, hrefuses _ ?_, ?_⟩
  · rw [hanswers]
    decide
  · rw [hshown.entries, hentries]
  · rw [hshown.ids, CodeSequence.ids, hentries]
    decide
  · rw [hread ⟨#[], none, none, 0⟩ rfl]

end InstructionList

end CilWeave
