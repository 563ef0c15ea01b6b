import Mathlib.Data.List.Nodup
import CilWeave.Proofs.InstructionList.Links

/-
Which chains are instruction lists.

A document can link its slots in any way: round in a circle, twice to one slot, to a slot that
is detached or not there at all. `Chain.WellLinked` says what is asked of the links without
walking along them: there is a sequence of slots, those marked as attached and no others, in
which every slot shows its two neighbours, and the ends and the length of it are the stated
ones. The linked forms of lists are such chains, and there are no others
(`InstructionList.ofChain_iff_wellLinked`).

`Chain.Walks` is the walk from the head with no limit on its steps. It ends on every chain,
because it goes on only from a slot it has not met (`Chain.walks_followFrom`).
-/

namespace CilWeave

theorem Trail.size_order_le {n : Nat} (t : Trail n) : t.order.size ≤ n := by
  have hsub : t.order.toList.map InstrId.slot ⊆ List.range n := by
    intro m hm
    obtain ⟨id, hid, rfl⟩ := List.mem_map.mp hm
    obtain ⟨hlt, -⟩ := Array.getElem?_eq_some_iff.mp ((t.mem_order id).mp hid)
    rw [t.size_marks] at hlt
    exact List.mem_range.mpr hlt
  have hle := (List.subperm_of_subset (InstructionList.nodup_map_slot t.nodup) hsub).length_le
  rwa [List.length_map, List.length_range, Array.length_toList] at hle

namespace Chain

variable {c : Chain} {order : List Nat}

/-! ## Well linked -/

/-- The slots of `order` are the attached ones, each of them links to its neighbours in it and to
nothing at the ends, and the ends and the length of the chain are those of `order`. -/
structure WellLinked (c : Chain) (order : List Nat) : Prop where
  nodup : order.Nodup
  attached : ∀ n, n ∈ order ↔ ∃ node, c.nodes[n]? = some node ∧ node.attached = true
  head : c.head.map InstrId.slot = order.head?
  tail : c.tail.map InstrId.slot = order.getLast?
  links : ∀ front n back, order = front ++ n :: back → ∃ node, c.nodes[n]? = some node ∧
    node.prev.map InstrId.slot = front.getLast? ∧ node.next.map InstrId.slot = back.head?
  length : order.length = c.length.toNat

theorem WellLinked.lt_size (h : c.WellLinked order) {n : Nat} (hn : n ∈ order) :
    n < UInt32.size := by
  have hlink : ∃ link : Option InstrId, link.map InstrId.slot = some n := by
    obtain ⟨front, back, hsplit⟩ := List.append_of_mem hn
    rcases List.eq_nil_or_concat' front with rfl | ⟨front, m, rfl⟩
    · exact ⟨c.head, by rw [h.head, hsplit]; rfl⟩
    · rw [List.append_assoc] at hsplit
      obtain ⟨node, -, -, hnext⟩ := h.links front m (n :: back) hsplit
      exact ⟨node.next, hnext⟩
  obtain ⟨link, hlink⟩ := hlink
  obtain ⟨id, -, rfl⟩ := Option.map_eq_some_iff.mp hlink
  exact id.slot_lt

/-! ## Walking without a limit -/

/-- What the walk along the links from `cursor` ends in. -/
inductive Walks (c : Chain) :
    Trail c.nodes.size → Option InstrId → Except Malformation (Trail c.nodes.size) → Prop where
  | arrive (t : Trail c.nodes.size) : Walks c t none (.ok t)
  | missing {t : Trail c.nodes.size} {id : InstrId} (hnode : c.node? id = none) :
      Walks c t (some id) (.error (.missingLink id))
  | twice {t : Trail c.nodes.size} {id : InstrId} {node : ChainNode}
      (hnode : c.node? id = some node) (hmark : t.marks[id.slot]? ≠ some false) :
      Walks c t (some id) (.error (.linkedTwice id))
  | broken {t : Trail c.nodes.size} {id : InstrId} {node : ChainNode}
      (hnode : c.node? id = some node) (hmark : t.marks[id.slot]? = some false)
      (hprev : node.prev ≠ t.order.back?) : Walks c t (some id) (.error (.brokenBackLink id))
  | goOn {t : Trail c.nodes.size} {id : InstrId} {node : ChainNode}
      {outcome : Except Malformation (Trail c.nodes.size)}
      (hnode : c.node? id = some node) (hmark : t.marks[id.slot]? = some false)
      (hprev : node.prev = t.order.back?) (hrest : Walks c (t.visit id hmark) node.next outcome) :
      Walks c t (some id) outcome

/-- A walk that may take one step for each slot it has not met, and one more, comes to its end. -/
theorem walks_followFrom {steps : Nat} {t : Trail c.nodes.size} {cursor : Option InstrId}
    (hsteps : c.nodes.size < t.order.size + steps) :
    c.Walks t cursor (c.followFrom steps t cursor) := by
  induction steps generalizing t cursor with
  | zero =>
    have hle := t.size_order_le
    omega
  | succ steps ih =>
    cases cursor with
    | none => exact .arrive t
    | some id =>
      rw [followFrom]
      cases hnode : c.node? id with
      | none => exact .missing hnode
      | some node =>
        by_cases hmark : t.marks[id.slot]? = some false
        · by_cases hprev : node.prev = t.order.back?
          · have hrest : c.nodes.size < (t.visit id hmark).order.size + steps := by
              simp only [Trail.visit, Array.size_push]
              omega
            simp only [dif_pos hmark, if_pos hprev]
            exact .goOn hnode hmark hprev (ih hrest)
          · simp only [dif_pos hmark, if_neg hprev]
            exact .broken hnode hmark hprev
        · simp only [dif_neg hmark]
          exact .twice hnode hmark

theorem Walks.unique {t : Trail c.nodes.size} {cursor : Option InstrId}
    {outcome outcome' : Except Malformation (Trail c.nodes.size)} (h : c.Walks t cursor outcome)
    (h' : c.Walks t cursor outcome') : outcome' = outcome := by
  induction h with
  | arrive t =>
    cases h'
    rfl
  | missing hnode =>
    cases h' <;> simp_all
  | twice hnode hmark =>
    cases h' <;> simp_all
  | broken hnode hmark hprev =>
    cases h' <;> simp_all
  | goOn hnode hmark hprev _ ih =>
    cases h' with
    | goOn hnode' _ _ hrest' =>
      rw [hnode] at hnode'
      cases hnode'
      exact ih hrest'
    | missing | twice | broken => simp_all

theorem walks_iff_follow {outcome : Except Malformation (Trail c.nodes.size)} :
    c.Walks (.start _) c.head outcome ↔ outcome = c.follow := by
  have hend : c.Walks (.start _) c.head c.follow := walks_followFrom (by omega)
  exact ⟨fun h => hend.unique h, fun h => h ▸ hend⟩

end Chain

namespace InstructionList

variable {c : Chain} {order : List Nat}

/-! ## Lists are well linked -/

theorem mem_map_slot {l : InstructionList} {n : Nat} : n ∈ l.ids.map InstrId.slot ↔
    ∃ node, l.toChain.nodes[n]? = some node ∧ node.attached = true := by
  rw [mem_slots_iff, nodes_toChain, Array.getElem?_mapIdx]
  cases l.slots[n]? with
  | none => simp
  | some slot =>
    simp only [Option.some.injEq, Option.map_some, exists_eq_left', nodeOf]
    cases slot.place <;> simp

theorem wellLinked_toChain (l : InstructionList) :
    l.toChain.WellLinked (l.ids.map InstrId.slot) where
  nodup := l.nodup_slots
  attached n := mem_map_slot
  head := by rw [head_toChain, List.head?_map]
  tail := by rw [tail_toChain, List.getLast?_map]
  links := by
    intro front n back hsplit
    obtain ⟨front, rest, hids, rfl, hrest⟩ := List.map_eq_append_iff.mp hsplit
    obtain ⟨id, back, rfl, rfl, rfl⟩ := List.map_eq_cons_iff.mp hrest
    have hmem : id ∈ l.ids := by simp [hids]
    obtain ⟨i, hi⟩ := get?_of_mem hmem
    have hnode : l.toChain.node? id = some ⟨i, l.prev? id, l.next? id, true⟩ := by
      rw [node?_toChain, hi]
      rfl
    refine ⟨_, (node?_eq_some.mp hnode).1, ?_, ?_⟩
    · rw [prev?_of_split hids, List.getLast?_map]
    · rw [next?_of_split hids, List.head?_map]
  length := by rw [List.length_map, toNat_length_toChain]; rfl

/-! ## Well linked chains are lists -/

def slotsAsMarked (c : Chain) : Array Slot :=
  c.nodes.map fun node =>
    ⟨node.instruction, if node.attached then .attached else .detached node.prev node.next⟩

theorem getElem?_slotsAsMarked {n : Nat} : (slotsAsMarked c)[n]? = (c.nodes[n]?).map fun node =>
    ⟨node.instruction, if node.attached then .attached else .detached node.prev node.next⟩ :=
  Array.getElem?_map

theorem attached_slotsAsMarked {n : Nat} :
    (∃ slot, (slotsAsMarked c)[n]? = some slot ∧ slot.place = .attached) ↔
      ∃ node, c.nodes[n]? = some node ∧ node.attached = true := by
  rw [getElem?_slotsAsMarked]
  cases c.nodes[n]? with
  | none => simp
  | some node => cases h : node.attached <;> simp [h]

/-- The list whose order is that of a well linked chain. -/
def ofWellLinked (h : c.WellLinked order) : InstructionList where
  slots := slotsAsMarked c
  order := (order.map InstrId.ofSlot).toArray
  nodup := by
    refine List.Nodup.map_on (fun n hn m hm heq => ?_) h.nodup
    rw [← InstrId.slot_ofSlot (h.lt_size hn), heq, InstrId.slot_ofSlot (h.lt_size hm)]
  mem_order := by
    intro id
    have hmem : id ∈ order.map InstrId.ofSlot ↔ id.slot ∈ order := by
      rw [List.mem_map]
      constructor
      · rintro ⟨n, hn, rfl⟩
        rwa [InstrId.slot_ofSlot (h.lt_size hn)]
      · exact fun hid => ⟨id.slot, hid, id.ofSlot_slot⟩
    rw [hmem, h.attached, ← attached_slotsAsMarked, Slot.attachedAt]
    cases (slotsAsMarked c)[id.slot]? <;> simp
  addressed := by
    intro n slot hslot hplace
    exact h.lt_size ((h.attached n).mpr (attached_slotsAsMarked.mp ⟨slot, hslot, hplace⟩))

theorem ids_ofWellLinked (h : c.WellLinked order) :
    (ofWellLinked h).ids = order.map InstrId.ofSlot := rfl

theorem eq_map_ofSlot {link : Option InstrId} {n : Option Nat} (h : link.map InstrId.slot = n) :
    link = n.map InstrId.ofSlot := by
  rw [← h]
  cases link with
  | none => rfl
  | some id => exact congrArg some id.ofSlot_slot.symm

theorem nodeOf_ofWellLinked (h : c.WellLinked order) {n : Nat} {node : ChainNode}
    (hnode : c.nodes[n]? = some node) :
    (ofWellLinked h).nodeOf n ⟨node.instruction,
      if node.attached then .attached else .detached node.prev node.next⟩ = node := by
  unfold nodeOf
  by_cases hattached : node.attached = true
  · simp only [if_pos hattached]
    obtain ⟨front, back, hsplit⟩ :=
      List.append_of_mem ((h.attached n).mpr ⟨node, hnode, hattached⟩)
    obtain ⟨node', hnode', hprev, hnext⟩ := h.links front n back hsplit
    rw [hnode] at hnode'
    cases hnode'
    have hids : (ofWellLinked h).ids =
        front.map InstrId.ofSlot ++ InstrId.ofSlot n :: back.map InstrId.ofSlot := by
      rw [ids_ofWellLinked, hsplit, List.map_append, List.map_cons]
    rw [prev?_of_split hids, next?_of_split hids, List.getLast?_map, List.head?_map,
      ← eq_map_ofSlot hprev, ← eq_map_ofSlot hnext, ← hattached]
  · simp only [if_neg hattached, ← Bool.eq_false_iff.mpr hattached]

theorem toChain_ofWellLinked (h : c.WellLinked order) : (ofWellLinked h).toChain = c := by
  have hnodes : (ofWellLinked h).toChain.nodes = c.nodes := by
    rw [nodes_toChain]
    refine Array.ext_getElem? fun n => ?_
    have hslot : (ofWellLinked h).slots[n]? = _ := getElem?_slotsAsMarked
    rw [Array.getElem?_mapIdx, hslot]
    cases hnode : c.nodes[n]? with
    | none => rfl
    | some node => exact congrArg some (nodeOf_ofWellLinked h hnode)
  refine (eq_toChain hnodes.symm ?_ ?_ ?_).symm
  · rw [ids_ofWellLinked, List.head?_map, ← eq_map_ofSlot h.head]
  · rw [ids_ofWellLinked, List.getLast?_map, ← eq_map_ofSlot h.tail]
  · rw [ids_ofWellLinked, List.length_map, h.length, UInt64.ofNat_toNat]

/-! ## What is accepted -/

theorem ofChain_eq_ok_iff {l : InstructionList} : ofChain c = .ok l ↔ l.toChain = c :=
  ⟨toChain_of_ofChain, fun h => h ▸ ofChain_toChain⟩

/-- The walk along the links of a chain ends, however they are linked, in the one way that
`Chain.follow` gives; and the chain is accepted exactly if it is well linked. -/
theorem ofChain_iff_wellLinked (c : Chain) :
    (∀ outcome, c.Walks (.start _) c.head outcome ↔ outcome = c.follow) ∧
    ((∃ l, ofChain c = .ok l) ↔ ∃ order, c.WellLinked order) := by
  refine ⟨fun outcome => Chain.walks_iff_follow, ?_⟩
  constructor
  · rintro ⟨l, hl⟩
    have hchain := ofChain_eq_ok_iff.mp hl
    exact ⟨l.ids.map InstrId.slot, hchain ▸ l.wellLinked_toChain⟩
  · rintro ⟨order, h⟩
    exact ⟨ofWellLinked h, ofChain_eq_ok_iff.mpr (toChain_ofWellLinked h)⟩

end InstructionList

end CilWeave
