import CilWeave.Proofs.InstructionList.View

/-
Positions and neighbours in an instruction list.

`position?` and the table `positions` both answer the one place at which a
handle stands in the order. The instruction after a handle is the one at the next
place; when the order is written out as a prefix, the handle and a rest, it is the
first of the rest. Of two neighbours the pair is an infix of the order, so a new
instruction changes only the neighbours of the two it comes between
(`next?_between`, `prev?_between`).
-/

namespace CilWeave.InstructionList

theorem getElem?_inj_of_nodup {α : Type} {xs : List α} (h : xs.Nodup) {a : α} {i j : Nat}
    (hi : xs[i]? = some a) (hj : xs[j]? = some a) : i = j := by
  obtain ⟨hlt, -⟩ := List.getElem?_eq_some_iff.mp hi
  exact (List.getElem?_inj hlt h).mp (hi.trans hj.symm)

theorem position?_eq_some {l : InstructionList} {id : InstrId} {p : Nat} :
    l.position? id = some p ↔ l.ids[p]? = some id := by
  unfold position?
  rw [List.idxOf?_eq_some_iff]
  constructor
  · rintro ⟨h, he, -⟩
    rw [List.getElem?_eq_getElem h]
    simpa using he
  · intro h
    obtain ⟨hp, he⟩ := List.getElem?_eq_some_iff.mp h
    refine ⟨hp, by simpa using he, fun j hj => ?_⟩
    intro hcontra
    have hj' : l.ids[j]? = some id := by
      rw [List.getElem?_eq_getElem (by omega)]
      simpa using hcontra
    have := getElem?_inj_of_nodup l.nodup_ids hj' h
    omega

theorem position?_eq_none {l : InstructionList} {id : InstrId} (h : id ∉ l.ids) :
    l.position? id = none := by
  unfold position?
  exact List.idxOf?_eq_none_iff.mpr h

theorem order_getElem? (l : InstructionList) (p : Nat) : l.order[p]? = l.ids[p]? := by
  simp [ids]

theorem first?_eq (l : InstructionList) : l.first? = l.ids[0]? := l.order_getElem? 0

theorem next?_eq_some {l : InstructionList} {id x : InstrId} :
    l.next? id = some x ↔ ∃ p, l.ids[p]? = some id ∧ l.ids[p + 1]? = some x := by
  unfold next?
  rw [Option.bind_eq_some_iff]
  simp only [position?_eq_some, order_getElem?]

theorem next?_of_getElem? {l : InstructionList} {id : InstrId} {p : Nat}
    (h : l.ids[p]? = some id) : l.next? id = l.ids[p + 1]? := by
  unfold next?
  rw [position?_eq_some.mpr h, Option.bind_some, order_getElem?]

theorem next?_of_split {l : InstructionList} {id : InstrId} {before after : List InstrId}
    (h : l.ids = before ++ id :: after) : l.next? id = after.head? := by
  have hp : l.ids[before.length]? = some id := by simp [h]
  rw [next?_of_getElem? hp, h]
  cases after <;> simp

theorem next?_congr {l l' : InstructionList} (h : l'.ids = l.ids) (id : InstrId) :
    l'.next? id = l.next? id := by
  apply Option.ext
  intro x
  rw [next?_eq_some, next?_eq_some, h]

theorem mem_of_next? {l : InstructionList} {id x : InstrId} (h : l.next? id = some x) :
    x ∈ l.ids := by
  obtain ⟨p, -, hx⟩ := next?_eq_some.mp h
  exact List.mem_of_getElem? hx

theorem next?_inj {l : InstructionList} {id id' x : InstrId} (h : l.next? id = some x)
    (h' : l.next? id' = some x) : id = id' := by
  obtain ⟨p, hp, hx⟩ := next?_eq_some.mp h
  obtain ⟨q, hq, hx'⟩ := next?_eq_some.mp h'
  obtain rfl := Nat.succ.inj (getElem?_inj_of_nodup l.nodup_ids hx hx')
  exact Option.some.inj (hp.symm.trans hq)

theorem first?_ne_of_next? {l : InstructionList} {id x : InstrId} (h : l.next? id = some x) :
    l.first? ≠ some x := by
  obtain ⟨p, -, hx⟩ := next?_eq_some.mp h
  intro hfirst
  cases getElem?_inj_of_nodup l.nodup_ids (l.first?_eq.symm.trans hfirst) hx

/-! ## Neighbours -/

theorem pair_infix_cons {α : Type} {x a b : α} {xs : List α} :
    [a, b] <:+: x :: xs ↔ x = a ∧ xs.head? = some b ∨ [a, b] <:+: xs := by
  rw [List.infix_cons_iff, List.cons_prefix_cons]
  cases xs with
  | nil => simp
  | cons y ys => simp [List.cons_prefix_cons, eq_comm]

theorem pair_infix_append {α : Type} {a b : α} {ys : List α} :
    ∀ {xs : List α}, [a, b] <:+: xs ++ ys ↔
      [a, b] <:+: xs ∨ (xs.getLast? = some a ∧ ys.head? = some b) ∨ [a, b] <:+: ys
  | [] => by simp
  | x :: xs => by
    rw [List.cons_append, pair_infix_cons, pair_infix_cons, pair_infix_append]
    cases xs with
    | nil => grind
    | cons z zs => grind

theorem pair_infix_iff_getElem? {α : Type} {a b : α} {xs : List α} :
    [a, b] <:+: xs ↔ ∃ p, xs[p]? = some a ∧ xs[p + 1]? = some b := by
  rw [List.infix_iff_getElem?]
  constructor
  · rintro ⟨p, -, h⟩
    have ha := h 0 (by simp)
    have hb := h 1 (by simp)
    exact ⟨p, by simpa using ha, by simpa [Nat.add_comm] using hb⟩
  · rintro ⟨p, ha, hb⟩
    have := (List.getElem?_eq_some_iff.mp hb).1
    refine ⟨p, by simp; omega, fun i hi => ?_⟩
    match i, hi with
    | 0, _ => simpa using ha
    | 1, _ => simpa [Nat.add_comm] using hb

theorem next?_eq_some_iff {l : InstructionList} {id x : InstrId} :
    l.next? id = some x ↔ [id, x] <:+: l.ids := by
  rw [next?_eq_some, pair_infix_iff_getElem?]

theorem prev?_eq_some_iff {l : InstructionList} {id x : InstrId} :
    l.prev? id = some x ↔ [x, id] <:+: l.ids := by
  rw [pair_infix_iff_getElem?]
  unfold prev?
  constructor
  · intro h
    split at h
    · rename_i n hn
      exact ⟨n, by rw [← order_getElem?]; exact h, position?_eq_some.mp hn⟩
    · cases h
  · rintro ⟨p, hx, hid⟩
    simp only [position?_eq_some.mpr hid, order_getElem?, hx]

theorem prev?_of_split {l : InstructionList} {id : InstrId} {before after : List InstrId}
    (h : l.ids = before ++ id :: after) : l.prev? id = before.getLast? := by
  have hp : l.position? id = some before.length := position?_eq_some.mpr (by simp [h])
  unfold prev?
  rw [hp]
  rcases List.eq_nil_or_concat before with rfl | ⟨before, x, rfl⟩
  · rfl
  · simp [order_getElem?, h]

section Between

variable {l l' : InstructionList} {new : InstrId} {front back : List InstrId}

theorem next?_between (hl : l.ids = front ++ back) (hl' : l'.ids = front ++ new :: back)
    (x : InstrId) :
    l'.next? x = if x = new then back.head?
      else if front.getLast? = some x then some new else l.next? x := by
  split
  · rename_i hx
    rw [hx, next?_of_split hl']
  · rename_i hx
    split
    · rename_i hlast
      obtain ⟨front, rfl⟩ := List.getLast?_eq_some_iff.mp hlast
      rw [List.append_assoc] at hl'
      exact next?_of_split hl'
    · rename_i hlast
      ext y
      rw [next?_eq_some_iff, next?_eq_some_iff, hl, hl', pair_infix_append, pair_infix_append,
        pair_infix_cons]
      grind

theorem prev?_between (hl : l.ids = front ++ back) (hl' : l'.ids = front ++ new :: back)
    (x : InstrId) :
    l'.prev? x = if x = new then front.getLast?
      else if back.head? = some x then some new else l.prev? x := by
  split
  · rename_i hx
    rw [hx, prev?_of_split hl']
  · rename_i hx
    split
    · rename_i hhead
      obtain ⟨back, rfl⟩ := List.head?_eq_some_iff.mp hhead
      rw [List.append_cons] at hl'
      rw [prev?_of_split hl', List.getLast?_concat]
    · rename_i hhead
      ext y
      rw [prev?_eq_some_iff, prev?_eq_some_iff, hl, hl', pair_infix_append, pair_infix_append,
        pair_infix_cons]
      grind

/-- The same the other way round: what is after `x` once `new` is gone. -/
theorem next?_joined (hl : l.ids = front ++ back) (hl' : l'.ids = front ++ new :: back)
    {x : InstrId} (hx : x ≠ new) :
    l.next? x = if front.getLast? = some x then back.head? else l'.next? x := by
  split
  · rename_i hlast
    obtain ⟨front, rfl⟩ := List.getLast?_eq_some_iff.mp hlast
    rw [List.append_assoc] at hl
    exact next?_of_split hl
  · rename_i hlast
    rw [next?_between hl hl', if_neg hx, if_neg hlast]

theorem prev?_joined (hl : l.ids = front ++ back) (hl' : l'.ids = front ++ new :: back)
    {x : InstrId} (hx : x ≠ new) :
    l.prev? x = if back.head? = some x then front.getLast? else l'.prev? x := by
  split
  · rename_i hhead
    obtain ⟨back, rfl⟩ := List.head?_eq_some_iff.mp hhead
    exact prev?_of_split hl
  · rename_i hhead
    rw [prev?_between hl hl', if_neg hx, if_neg hhead]

end Between

/-! ## Tables by slot -/

/-- Writing a value for some places of an order into a table by slot. -/
def fillSlots {α : Type} (order : Array InstrId) (value : Nat → α) (table : Array α)
    (places : List Nat) : Array α :=
  places.foldl
    (fun found n =>
      match order[n]? with
      | some id => found.setIfInBounds id.slot (value n)
      | none => found) table

section fillSlots

variable {α : Type} {order : Array InstrId} {value : Nat → α} {id : InstrId}

theorem fillSlots_of_not_mem :
    ∀ {places : List Nat} {table : Array α}, (∀ n ∈ places, order[n]? ≠ some id) →
      (fillSlots order value table places)[id.slot]? = table[id.slot]?
  | [], _, _ => rfl
  | n :: rest, table, h => by
    have ih : ∀ table, (fillSlots order value table rest)[id.slot]? = table[id.slot]? := fun _ =>
      fillSlots_of_not_mem fun m hm => h m (List.mem_cons_of_mem n hm)
    unfold fillSlots at ih ⊢
    rw [List.foldl_cons, ih]
    cases ho : order[n]? with
    | none => rfl
    | some other =>
      have hne : other ≠ id := fun e => h n (by simp) (by rw [ho, e])
      have hslot : other.slot ≠ id.slot := fun e => hne (InstrId.slot_injective e)
      simp [hslot]

theorem fillSlots_of_mem {p : Nat} (hp : order[p]? = some id)
    (honly : ∀ n, order[n]? = some id → n = p) :
    ∀ {places : List Nat} {table : Array α}, id.slot < table.size → p ∈ places →
      (fillSlots order value table places)[id.slot]? = some (value p)
  | n :: rest, table, hlt, hmem => by
    have hstep : fillSlots order value table (n :: rest)
        = fillSlots order value
          (match order[n]? with
            | some id => table.setIfInBounds id.slot (value n)
            | none => table) rest := rfl
    rw [hstep]
    by_cases hrest : p ∈ rest
    · refine fillSlots_of_mem hp honly ?_ hrest
      cases order[n]? <;> simpa using hlt
    · have hn : n = p := by
        rcases List.mem_cons.mp hmem with h | h
        · exact h.symm
        · exact absurd h hrest
      subst hn
      rw [fillSlots_of_not_mem fun m hm e => hrest (honly m e ▸ hm)]
      simp [hp, hlt]

end fillSlots

theorem slot_lt_of_mem {l : InstructionList} {id : InstrId} (h : id ∈ l.ids) :
    id.slot < l.slots.size := by
  have hc := mem_ids.mp h
  unfold contains Slot.attachedAt at hc
  rcases Nat.lt_or_ge id.slot l.slots.size with hlt | hge
  · exact hlt
  · rw [Array.getElem?_eq_none hge] at hc; simp at hc

theorem fillSlots_of_getElem? {α : Type} {l : InstructionList} {id : InstrId} {p : Nat}
    (value : Nat → α) (start : α) (h : l.ids[p]? = some id) :
    (fillSlots l.order value (Array.replicate l.slots.size start)
      (List.range l.order.size))[id.slot]? = some (value p) := by
  have honly : ∀ n, l.order[n]? = some id → n = p := fun n hn =>
    getElem?_inj_of_nodup l.nodup_ids (by rw [← order_getElem?]; exact hn) h
  refine fillSlots_of_mem (by rw [order_getElem?]; exact h) honly ?_ ?_
  · simpa using slot_lt_of_mem (List.mem_of_getElem? h)
  · obtain ⟨hlt, -⟩ := List.getElem?_eq_some_iff.mp h
    simpa [ids] using hlt

theorem positions_eq (l : InstructionList) :
    l.positions = fillSlots l.order some (Array.replicate l.slots.size none)
      (List.range l.order.size) := rfl

theorem positions_getElem? {l : InstructionList} {id : InstrId} {p : Nat} :
    l.positions[id.slot]? = some (some p) ↔ l.ids[p]? = some id := by
  have hfound : ∀ {q : Nat}, l.ids[q]? = some id → l.positions[id.slot]? = some (some q) :=
    fun hq => fillSlots_of_getElem? some none hq
  constructor
  · intro h
    by_cases hm : id ∈ l.ids
    · obtain ⟨q, hq⟩ := List.mem_iff_getElem?.mp hm
      have := hfound hq
      rw [h] at this
      cases this
      exact hq
    · rw [positions_eq, fillSlots_of_not_mem] at h
      · rw [Array.getElem?_replicate] at h
        split at h <;> cases h
      · intro n _ hn
        exact hm (List.mem_of_getElem? (by rw [← order_getElem?]; exact hn))
  · exact hfound

end CilWeave.InstructionList
