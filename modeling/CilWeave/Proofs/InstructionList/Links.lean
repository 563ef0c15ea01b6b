import Mathlib.Data.List.Perm.Subperm
import CilWeave.InstructionList.Chain
import CilWeave.Proofs.InstructionList.Order

/-
The links of an instruction list.

Written out with its links, a list shows at every attached slot the neighbours of the
instruction there (`nodes_toChain`), so walking the links goes through the list in order.
Reading a chain is the inverse: a chain that is accepted is the linked form of the list it
is read as (`toChain_of_ofChain`), and the linked form of a list is accepted and reads as
that list (`ofChain_toChain`).
-/

namespace CilWeave

/-! ## The linked form -/

namespace InstructionList

theorem head_toChain (l : InstructionList) : l.toChain.head = l.ids.head? := by
  rw [List.head?_eq_getElem?]
  exact l.first?_eq

theorem tail_toChain (l : InstructionList) : l.toChain.tail = l.ids.getLast? :=
  (Array.getLast?_toList ..).symm

/-- A chain is the linked form of a list if its nodes are, and its ends and length fit. -/
theorem eq_toChain {c : Chain} {l : InstructionList} (hnodes : c.nodes = l.toChain.nodes)
    (hhead : c.head = l.ids.head?) (htail : c.tail = l.ids.getLast?)
    (hlength : c.length = UInt64.ofNat l.ids.length) : c = l.toChain := by
  cases c
  exact Chain.mk.injEq .. ▸
    ⟨hnodes, hhead.trans l.head_toChain.symm, htail.trans l.tail_toChain.symm, hlength⟩

/-- The node of a slot: the neighbours if it is attached, else the links that are left. -/
def nodeOf (l : InstructionList) (n : Nat) (slot : Slot) : ChainNode :=
  match slot.place with
  | .attached => ⟨slot.instruction, l.prev? (.ofSlot n), l.next? (.ofSlot n), true⟩
  | .detached back forward => ⟨slot.instruction, back, forward, false⟩

theorem neighbours_getElem? {l : InstructionList} {id : InstrId} (h : id ∈ l.ids) :
    l.neighbours[id.slot]? = some (l.prev? id, l.next? id) := by
  obtain ⟨p, hp⟩ := List.mem_iff_getElem?.mp h
  have hfill : l.neighbours[id.slot]? =
      some (if p = 0 then none else l.order[p - 1]?, l.order[p + 1]?) :=
    fillSlots_of_getElem?
      (fun n => (if n = 0 then none else l.order[n - 1]?, l.order[n + 1]?)) (none, none) hp
  have hnext : l.next? id = l.order[p + 1]? := by
    rw [next?_of_getElem? hp, order_getElem?]
  have hprev : l.prev? id = if p = 0 then none else l.order[p - 1]? := by
    unfold prev?
    rw [position?_eq_some.mpr hp]
    cases p <;> rfl
  rw [hfill, hnext, hprev]

theorem ofSlot_mem_ids {l : InstructionList} {n : Nat} {slot : Slot}
    (hn : n < UInt32.size) (hslot : l.slots[n]? = some slot) :
    InstrId.ofSlot n ∈ l.ids ↔ slot.place = .attached := by
  rw [mem_ids]
  unfold contains Slot.attachedAt
  rw [InstrId.slot_ofSlot hn, hslot]
  simp

theorem mem_slots_iff {l : InstructionList} {n : Nat} : n ∈ l.ids.map InstrId.slot ↔
    ∃ slot, l.slots[n]? = some slot ∧ slot.place = .attached := by
  rw [List.mem_map]
  constructor
  · rintro ⟨id, hid, rfl⟩
    have hslot := Array.getElem?_eq_getElem (slot_lt_of_mem hid)
    refine ⟨_, hslot, (ofSlot_mem_ids id.slot_lt hslot).mp ?_⟩
    rwa [InstrId.ofSlot_slot]
  · rintro ⟨slot, hslot, hplace⟩
    have hn := l.addressed n slot hslot hplace
    exact ⟨.ofSlot n, (ofSlot_mem_ids hn hslot).mpr hplace, InstrId.slot_ofSlot hn⟩

theorem nodes_toChain {l : InstructionList} :
    l.toChain.nodes = l.slots.mapIdx l.nodeOf := by
  refine Array.ext_getElem? fun n => ?_
  unfold toChain
  simp only [Array.getElem?_mapIdx]
  cases hslot : l.slots[n]? with
  | none => rfl
  | some slot =>
    simp only [Option.map_some, nodeOf]
    cases hplace : slot.place with
    | detached back forward => rfl
    | attached =>
      have hn := l.addressed n slot hslot hplace
      have hlinks := neighbours_getElem? ((ofSlot_mem_ids hn hslot).mpr hplace)
      rw [InstrId.slot_ofSlot hn] at hlinks
      simp only [hlinks, Option.getD_some]

theorem node?_toChain {l : InstructionList} (id : InstrId) :
    l.toChain.node? id = (l.get? id).map fun i => ⟨i, l.prev? id, l.next? id, true⟩ := by
  unfold Chain.node? get?
  rw [nodes_toChain, Array.getElem?_mapIdx]
  cases hslot : l.slots[id.slot]? with
  | none => rfl
  | some slot =>
    simp only [Option.map_some, nodeOf, InstrId.ofSlot_slot]
    cases slot.place <;> simp

end InstructionList

/-! ## Walks -/

namespace Chain

/-- Some handles follow each other along the links from the head, and `cursor` is next. -/
structure Followed (c : Chain) (order : List InstrId) (cursor : Option InstrId) : Prop where
  head : c.head = order.head?.or cursor
  linked : ∀ {front id back}, order = front ++ id :: back → ∃ node, c.node? id = some node ∧
    node.prev = front.getLast? ∧ node.next = back.head?.or cursor

theorem followed_start (c : Chain) : c.Followed [] c.head where
  head := rfl
  linked h := by simp at h

theorem Followed.visit {c : Chain} {order : List InstrId} {id : InstrId} {node : ChainNode}
    (h : c.Followed order (some id)) (hnode : c.node? id = some node)
    (hprev : node.prev = order.getLast?) : c.Followed (order ++ [id]) node.next where
  head := by rw [h.head]; cases order <;> rfl
  linked := by
    intro front x back hsplit
    rcases List.eq_nil_or_concat back with rfl | ⟨back, y, rfl⟩
    · obtain ⟨rfl, hx⟩ := List.append_inj' hsplit rfl
      cases hx
      exact ⟨node, hnode, hprev, rfl⟩
    · rw [List.concat_eq_append, ← List.cons_append, ← List.append_assoc] at hsplit
      obtain ⟨hfront, hy⟩ := List.append_inj' hsplit rfl
      cases hy
      obtain ⟨before, hbefore, hback, hforth⟩ := h.linked hfront
      refine ⟨before, hbefore, hback, ?_⟩
      rw [hforth]
      cases back <;> simp

theorem followFrom_eq_ok {c : Chain} :
    ∀ {steps : Nat} {t t' : Trail c.nodes.size} {cursor : Option InstrId},
      c.Followed t.order.toList cursor → c.followFrom steps t cursor = .ok t' →
      c.Followed t'.order.toList none
  | 0, t, t', none, h, hok | _ + 1, t, t', none, h, hok => by
    unfold followFrom at hok
    cases hok
    exact h
  | 0, _, _, some id, _, hok => by
    unfold followFrom at hok
    cases hok
  | steps + 1, t, t', some id, h, hok => by
    unfold followFrom at hok
    split at hok
    · cases hok
    · rename_i node hnode
      split at hok
      · rename_i hmark
        split at hok
        · rename_i hprev
          refine followFrom_eq_ok ?_ hok
          rw [← Array.getLast?_toList] at hprev
          have := h.visit hnode hprev
          simpa [Trail.visit] using this
        · cases hok
      · cases hok

/-- What an accepted chain shows: the walk from its head met every attached slot once. -/
theorem ofChain_eq_ok {c : Chain} {l : InstructionList} (h : InstructionList.ofChain c = .ok l) :
    ∃ t : Trail c.nodes.size, c.Followed l.ids none ∧ l.slots = InstructionList.slotsOf c t ∧
      l.order = t.order ∧ l.last? = c.tail ∧ l.length = c.length.toNat ∧
      c.attachedCount = c.length.toNat := by
  unfold InstructionList.ofChain at h
  split at h
  · cases h
  · rename_i t hfollow
    split at h
    · rename_i htail
      split at h
      · rename_i hcount
        cases h
        have hwalk := followFrom_eq_ok c.followed_start hfollow
        exact ⟨t, hwalk, rfl, rfl, htail, hcount.1, hcount.2⟩
      · cases h
    · cases h

end Chain

namespace InstructionList

/-! ## Reading a chain -/

def markedSlots (c : Chain) : List Nat :=
  (List.range c.nodes.size).filter fun n => c.nodes[n]?.any (·.attached)

theorem mem_markedSlots {c : Chain} {n : Nat} {node : ChainNode} (h : c.nodes[n]? = some node) :
    n ∈ markedSlots c ↔ node.attached = true := by
  obtain ⟨hlt, -⟩ := Array.getElem?_eq_some_iff.mp h
  unfold markedSlots
  rw [List.mem_filter, List.mem_range, h]
  simp [hlt]

theorem countP_range {α : Type} (p : α → Bool) :
    ∀ xs : List α, (List.range xs.length).countP (fun n => xs[n]?.any p) = xs.countP p
  | [] => rfl
  | x :: xs => by
    have ih := countP_range p xs
    rw [List.length_cons, List.range_succ_eq_map, List.countP_cons, List.countP_map,
      List.countP_cons, ← ih]
    rfl

theorem length_markedSlots (c : Chain) : (markedSlots c).length = c.attachedCount := by
  unfold markedSlots Chain.attachedCount
  rw [← List.countP_eq_length_filter, ← Array.countP_toList,
    ← countP_range (·.attached) c.nodes.toList]
  simp

theorem node?_eq_some {c : Chain} {id : InstrId} {node : ChainNode} :
    c.node? id = some node ↔ c.nodes[id.slot]? = some node ∧ node.attached = true := by
  unfold Chain.node?
  cases c.nodes[id.slot]? with
  | none => simp
  | some other =>
    by_cases h : other.attached
    · simp only [h, if_true, Option.some.injEq]
      exact ⟨fun e => ⟨e, e ▸ h⟩, And.left⟩
    · simp only [h, Bool.false_eq_true, if_false, Option.some.injEq]
      exact ⟨nofun, fun ⟨e, hn⟩ => absurd (e ▸ hn) h⟩

theorem nodup_map_slot {ids : List InstrId} (h : ids.Nodup) : (ids.map InstrId.slot).Nodup :=
  List.Pairwise.map InstrId.slot (fun _ _ hne heq => hne (InstrId.slot_injective heq)) h

theorem nodup_slots (l : InstructionList) : (l.ids.map InstrId.slot).Nodup :=
  nodup_map_slot l.nodup_ids

/-- Every slot that an accepted chain marks as attached was met on the walk. -/
theorem exists_mem_of_marked {c : Chain} {l : InstructionList} (h : ofChain c = .ok l) {n : Nat}
    {node : ChainNode} (hnode : c.nodes[n]? = some node) (hmark : node.attached = true) :
    ∃ id ∈ l.ids, id.slot = n := by
  obtain ⟨t, hwalk, -, -, -, hlength, hcount⟩ := Chain.ofChain_eq_ok h
  have hsub : l.ids.map InstrId.slot ⊆ markedSlots c := by
    intro m hm
    obtain ⟨id, hid, rfl⟩ := List.mem_map.mp hm
    obtain ⟨front, back, hsplit⟩ := List.append_of_mem hid
    obtain ⟨met, hmet, -, -⟩ := hwalk.linked hsplit
    obtain ⟨hat, hattached⟩ := node?_eq_some.mp hmet
    exact (mem_markedSlots hat).mpr hattached
  -- As many slots are marked as were met, and each of those once: so there are no others.
  have hlengths : (markedSlots c).length ≤ (l.ids.map InstrId.slot).length := by
    rw [length_markedSlots, hcount, ← hlength, List.length_map]
    exact Nat.le_of_eq rfl
  have hperm := (List.subperm_of_subset l.nodup_slots hsub).perm_of_length_le hlengths
  obtain ⟨id, hid, hslot⟩ :=
    List.mem_map.mp (hperm.mem_iff.mpr ((mem_markedSlots hnode).mpr hmark))
  exact ⟨id, hid, hslot⟩

theorem nodeOf_of_ofChain {c : Chain} {l : InstructionList} (h : ofChain c = .ok l)
    {n : Nat} {slot : Slot} (hslot : l.slots[n]? = some slot) :
    c.nodes[n]? = some (l.nodeOf n slot) := by
  obtain ⟨t, hwalk, hslots, horder, -⟩ := Chain.ofChain_eq_ok h
  rw [hslots, slotsOf, Array.getElem?_mapIdx] at hslot
  obtain ⟨node, hnode, rfl⟩ := Option.map_eq_some_iff.mp hslot
  unfold nodeOf
  by_cases hmark : t.marks[n]? = some true
  · -- The walk came by, so the links are the ones it went along.
    simp only [if_pos hmark]
    have hn := t.marks_lt n hmark
    have hid : InstrId.ofSlot n ∈ l.ids := by
      rw [ids, horder, t.mem_order, InstrId.slot_ofSlot hn]
      exact hmark
    obtain ⟨front, back, hsplit⟩ := List.append_of_mem hid
    obtain ⟨met, hmet, hprev, hnext⟩ := hwalk.linked hsplit
    obtain ⟨hat, hattached⟩ := node?_eq_some.mp hmet
    rw [InstrId.slot_ofSlot hn, hnode] at hat
    cases hat
    rw [Option.or_none] at hnext
    rw [hnode, prev?_of_split hsplit, next?_of_split hsplit, ← hprev, ← hnext, ← hattached]
  · simp only [if_neg hmark]
    have hattached : node.attached = false := by
      refine Bool.eq_false_iff.mpr fun hattached => hmark ?_
      obtain ⟨id, hid, rfl⟩ := exists_mem_of_marked h hnode hattached
      rw [ids, horder, t.mem_order] at hid
      exact hid
    rw [hnode, ← hattached]

/-- A chain that is accepted is the linked form of the list it is read as. -/
theorem toChain_of_ofChain {c : Chain} {l : InstructionList} (h : ofChain c = .ok l) :
    l.toChain = c := by
  obtain ⟨t, hwalk, hslots, horder, htail, hlength, -⟩ := Chain.ofChain_eq_ok h
  have hsize : l.slots.size = c.nodes.size := by
    rw [hslots]
    exact Array.size_mapIdx
  have hnodes : l.toChain.nodes = c.nodes := by
    rw [nodes_toChain]
    refine Array.ext_getElem? fun n => ?_
    rw [Array.getElem?_mapIdx]
    cases hslot : l.slots[n]? with
    | none =>
      have hn := Array.getElem?_eq_none_iff.mp hslot
      rw [Array.getElem?_eq_none (by omega)]
      rfl
    | some slot =>
      rw [nodeOf_of_ofChain h hslot]
      rfl
  refine (eq_toChain hnodes.symm ?_ ?_ ?_).symm
  · rw [hwalk.head, Option.or_none]
  · rw [← htail, ← tail_toChain]
    rfl
  · show c.length = UInt64.ofNat l.length
    rw [hlength, UInt64.ofNat_toNat]

/-! ## Reading the linked form -/

/-- The walk through the linked form of a list goes through the list. -/
theorem followFrom_toChain {l : InstructionList} :
    ∀ {rest : List InstrId} {steps : Nat} {t : Trail l.toChain.nodes.size},
      l.ids = t.order.toList ++ rest → rest.length ≤ steps →
      ∃ t', l.toChain.followFrom steps t rest.head? = .ok t' ∧ t'.order = l.order
  | [], steps, t, hsplit, _ => by
    refine ⟨t, by cases steps <;> rfl, ?_⟩
    rw [List.append_nil] at hsplit
    exact Array.toList_inj.mp hsplit.symm
  | id :: rest, steps + 1, t, hsplit, hsteps => by
    have hid : id ∈ l.ids := hsplit ▸ List.mem_append_right _ List.mem_cons_self
    obtain ⟨i, hi⟩ := get?_of_mem hid
    have hnode : l.toChain.node? id = some ⟨i, l.prev? id, l.next? id, true⟩ := by
      rw [node?_toChain, hi]
      rfl
    have hnew : id ∉ t.order.toList := by
      have hnodup := l.nodup_ids
      rw [hsplit, List.nodup_append] at hnodup
      exact fun hm => hnodup.2.2 id hm id List.mem_cons_self rfl
    have hmark : t.marks[id.slot]? = some false := by
      have hsize : t.marks.size = l.slots.size := by
        rw [t.size_marks, nodes_toChain, Array.size_mapIdx]
      have hlt := slot_lt_of_mem hid
      have hne : t.marks[id.slot]? ≠ some true := fun h => hnew ((t.mem_order id).mpr h)
      rw [Array.getElem?_eq_getElem (by omega)] at hne ⊢
      exact congrArg some (Bool.eq_false_iff.mpr fun h => hne (congrArg some h))
    have hback : l.prev? id = t.order.back? := by
      rw [prev?_of_split hsplit, Array.getLast?_toList]
    have hforth : l.next? id = rest.head? := next?_of_split hsplit
    have hstep : l.toChain.followFrom (steps + 1) t (id :: rest).head? =
        l.toChain.followFrom steps (t.visit id hmark) rest.head? := by
      rw [← hforth]
      simp only [List.head?_cons, Chain.followFrom, hnode, hmark, dite_true, hback, if_true]
    rw [hstep]
    refine followFrom_toChain ?_ (Nat.le_of_succ_le_succ hsteps)
    simp [Trail.visit, hsplit]

theorem slotsOf_toChain {l : InstructionList}
    {t : Trail l.toChain.nodes.size} (horder : t.order = l.order) :
    slotsOf l.toChain t = l.slots := by
  refine Array.ext_getElem? fun n => ?_
  have hnode : l.toChain.nodes[n]? = (l.slots[n]?).map (l.nodeOf n) := by
    rw [nodes_toChain, Array.getElem?_mapIdx]
  rw [slotsOf, Array.getElem?_mapIdx, hnode]
  cases hslot : l.slots[n]? with
  | none => rfl
  | some slot =>
    have hplace : t.marks[n]? = some true ↔ slot.place = .attached := by
      have hmark (hn : n < UInt32.size) :=
        InstrId.slot_ofSlot hn ▸ horder ▸ t.mem_order (.ofSlot n)
      constructor
      · intro hmet
        have hn := t.marks_lt n hmet
        exact (ofSlot_mem_ids hn hslot).mp ((hmark hn).mpr hmet)
      · intro hattached
        have hn := l.addressed n slot hslot hattached
        exact (hmark hn).mp ((ofSlot_mem_ids hn hslot).mpr hattached)
    simp only [Option.map_some, nodeOf, hplace]
    cases slot with
    | mk i place => cases place <;> rfl

theorem attachedCount_toChain {l : InstructionList} :
    l.toChain.attachedCount = l.length := by
  have hmarked : (markedSlots l.toChain).Nodup := List.nodup_range.filter _
  have hperm : (markedSlots l.toChain).Perm (l.ids.map InstrId.slot) := by
    refine (List.perm_ext_iff_of_nodup hmarked l.nodup_slots).mpr fun n => ?_
    rw [mem_slots_iff]
    unfold markedSlots
    rw [List.mem_filter, List.mem_range, nodes_toChain, Array.getElem?_mapIdx,
      Array.size_mapIdx]
    cases hslot : l.slots[n]? with
    | none => simp
    | some slot =>
      obtain ⟨hlt, -⟩ := Array.getElem?_eq_some_iff.mp hslot
      simp only [hlt, true_and, Option.map_some, Option.any_some, nodeOf, Option.some.injEq,
        exists_eq_left']
      cases slot.place <;> simp
  rw [← length_markedSlots, hperm.length_eq, List.length_map]
  rfl

theorem length_le_size {l : InstructionList} :
    l.length ≤ l.slots.size := by
  have hle : l.toChain.attachedCount ≤ l.toChain.nodes.size := Array.countP_le_size
  rwa [attachedCount_toChain, nodes_toChain, Array.size_mapIdx] at hle

theorem follow_toChain {l : InstructionList} :
    ∃ t, l.toChain.follow = .ok t ∧ t.order = l.order := by
  have hsize : l.toChain.nodes.size = l.slots.size := Array.size_mapIdx
  unfold Chain.follow
  rw [head_toChain]
  refine followFrom_toChain rfl ?_
  rw [hsize]
  exact Nat.le_succ_of_le (length_le_size)

theorem length_le_handles (l : InstructionList) : l.length ≤ UInt32.size := by
  have hsub : l.ids.map InstrId.slot ⊆ List.range UInt32.size := by
    intro n hn
    obtain ⟨id, -, rfl⟩ := List.mem_map.mp hn
    exact List.mem_range.mpr id.slot_lt
  have hle := (List.subperm_of_subset l.nodup_slots hsub).length_le
  rwa [List.length_map, List.length_range] at hle

theorem toNat_length_toChain (l : InstructionList) : l.toChain.length.toNat = l.length := by
  have hfew := l.length_le_handles
  have hsmall : UInt32.size < UInt64.size := by decide
  exact UInt64.toNat_ofNat_of_lt' (by omega)

/-- The linked form of a list is accepted, and reads as the list. -/
theorem ofChain_toChain {l : InstructionList} :
    ofChain l.toChain = .ok l := by
  have hlength := l.toNat_length_toChain
  obtain ⟨t, hfollow, horder⟩ := follow_toChain
  have htail : t.order.back? = l.toChain.tail := by
    rw [horder]
    rfl
  have hsize : t.order.size = l.toChain.length.toNat := by
    rw [horder, hlength]
    rfl
  unfold ofChain
  simp only [hfollow]
  rw [if_pos htail, if_pos ⟨hsize, (attachedCount_toChain).trans hlength.symm⟩]
  exact congrArg Except.ok (eq_of_slots_of_order (slotsOf_toChain horder) horder)

end InstructionList

end CilWeave
