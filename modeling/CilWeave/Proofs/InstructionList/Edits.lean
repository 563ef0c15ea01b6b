import CilWeave.Proofs.InstructionList.Order

/-
What edits do to the entries of a list.

An attached instruction splits the entries in two (`exists_split`), and no other entry has
its handle, so an edit there leaves the others as they are. The three insertions do one
thing at three places: `Inserts` says that a new slot was taken and that its handle stands
between two parts of the order.
-/

namespace CilWeave.InstructionList

variable {l l' : InstructionList} {i : Instruction} {id anchor new : InstrId}

/-! ## One entry and the others -/

theorem entries_eq {es : List (InstrId × Instruction)} (hids : l.ids = es.map Prod.fst)
    (hget : ∀ e ∈ es, l.get? e.1 = some e.2) : l.entries = es := by
  unfold entries
  rw [hids]
  clear hids
  induction es with
  | nil => rfl
  | cons e rest ih =>
    have he := hget e (by simp)
    rw [List.map_cons, List.filterMap_cons, he]
    simp only [Option.map_some, Prod.eta]
    rw [ih fun x hx => hget x (List.mem_cons_of_mem e hx)]

theorem ids_eq_of_entries {es : List (InstrId × Instruction)} (h : l.entries = es) :
    l.ids = es.map Prod.fst := by
  rw [← h, map_fst_entries]

theorem get?_of_entries {es : List (InstrId × Instruction)} (h : l.entries = es)
    {e : InstrId × Instruction} (he : e ∈ es) : l.get? e.1 = some e.2 :=
  mem_entries.mp (h ▸ he)

/-- An attached instruction splits the entries in two. -/
theorem exists_split (h : id ∈ l.ids) :
    ∃ front i back, l.entries = front ++ (id, i) :: back := by
  obtain ⟨i, hi⟩ := get?_of_mem h
  obtain ⟨front, back, hsplit⟩ := List.append_of_mem (mem_entries.mpr hi)
  exact ⟨front, i, back, hsplit⟩

section Split

variable {front back : List (InstrId × Instruction)}

theorem ne_of_split (h : l.entries = front ++ (id, i) :: back) :
    ∀ e ∈ front ++ back, e.1 ≠ id := by
  have hnodup := l.nodup_ids
  rw [ids_eq_of_entries h, List.map_append, List.map_cons, List.nodup_append,
    List.nodup_cons] at hnodup
  obtain ⟨-, ⟨hback, -⟩, hfront⟩ := hnodup
  intro e he heq
  rcases List.mem_append.mp he with he | he
  · exact hfront e.1 (List.mem_map_of_mem he) id (by simp) heq
  · exact hback (List.mem_map.mpr ⟨e, he, heq⟩)

theorem entries_modify (f : Instruction → Instruction)
    (hl : l.entries = front ++ (id, i) :: back) :
    (l.modify id f).entries = front ++ (id, f i) :: back := by
  have hother := ne_of_split hl
  refine entries_eq ?_ ?_
  · rw [ids_modify, ids_eq_of_entries hl]
    simp
  · intro e he
    rw [get?_modify]
    have hsplit : e = (id, f i) ∨ e ∈ front ++ back := by
      simp only [List.mem_append, List.mem_cons] at he ⊢
      rcases he with h | h | h
      · exact .inr (.inl h)
      · exact .inl h
      · exact .inr (.inr h)
    rcases hsplit with rfl | he'
    · rw [if_pos rfl, get?_of_entries hl (by simp : (id, i) ∈ _)]
      rfl
    · rw [if_neg (hother e he')]
      refine get?_of_entries hl ?_
      simp only [List.mem_append, List.mem_cons] at he' ⊢
      rcases he' with h | h
      · exact .inl h
      · exact .inr (.inr h)

end Split

/-! ## Insertions -/

/-- An instruction was put into a new slot, between two parts of the order. -/
structure Inserts (l l' : InstructionList) (i : Instruction) (front back : List InstrId) :
    Prop where
  room : l.slots.size < UInt32.size
  slots : l'.slots = l.slots.push ⟨i, .attached⟩
  before : l.ids = front ++ back
  after : l'.ids = front ++ .ofSlot l.slots.size :: back

section Inserts

variable {front back : List InstrId}

theorem Inserts.fresh (h : l.Inserts l' i front back) : .ofSlot l.slots.size ∉ l.ids := fun hm => by
  have hlt := slot_lt_of_mem hm
  rw [InstrId.slot_ofSlot h.room] at hlt
  exact absurd hlt (Nat.lt_irrefl _)

theorem Inserts.get?_new (h : l.Inserts l' i front back) :
    l'.get? (.ofSlot l.slots.size) = some i := by
  simp only [get?, h.slots, InstrId.slot_ofSlot h.room, Array.getElem?_push_size, if_true]

theorem Inserts.get?_old (h : l.Inserts l' i front back) (hid : id ∈ l.ids) :
    l'.get? id = l.get? id := by
  have hne : id.slot ≠ l.slots.size := Nat.ne_of_lt (slot_lt_of_mem hid)
  simp only [get?, h.slots, Array.getElem?_push, if_neg hne]

/-- The new entry stands between the entries of the two parts. -/
theorem Inserts.entries {front back : List (InstrId × Instruction)}
    (h : l.Inserts l' i (front.map Prod.fst) (back.map Prod.fst))
    (hl : l.entries = front ++ back) :
    l'.entries = front ++ (.ofSlot l.slots.size, i) :: back := by
  refine entries_eq (by rw [h.after]; simp) ?_
  intro e he
  have hcases : e = (.ofSlot l.slots.size, i) ∨ e ∈ l.entries := by
    rw [hl]
    simp only [List.mem_append, List.mem_cons] at he ⊢
    rcases he with h | h | h
    · exact .inr (.inl h)
    · exact .inl h
    · exact .inr (.inr h)
  rcases hcases with rfl | he
  · exact h.get?_new
  · have hin : e.1 ∈ l.ids := l.map_fst_entries ▸ List.mem_map_of_mem he
    rw [h.get?_old hin]
    exact mem_entries.mp he

theorem push_eq_ok (h : push i l = .ok new l') :
    new = .ofSlot l.slots.size ∧ l.Inserts l' i l.ids [] := by
  unfold push at h
  split at h
  · rename_i hroom
    cases h
    exact ⟨rfl, hroom, rfl, (List.append_nil _).symm, Array.toList_push⟩
  · cases h

theorem afterIn_append {rest : List InstrId} :
    ∀ {front : List InstrId}, anchor ∉ front →
      afterIn anchor new (front ++ anchor :: rest) = front ++ anchor :: new :: rest
  | [], _ => by simp [afterIn]
  | x :: front, h => by
    have hx : x ≠ anchor := fun e => h (e ▸ List.mem_cons_self ..)
    have ih := @afterIn_append rest front fun hm => h (List.mem_cons_of_mem x hm)
    simp only [List.cons_append, afterIn, if_neg hx, ih]

theorem beforeIn_append {rest : List InstrId} :
    ∀ {front : List InstrId}, anchor ∉ front →
      beforeIn anchor new (front ++ anchor :: rest) = front ++ new :: anchor :: rest
  | [], _ => by simp [beforeIn]
  | x :: front, h => by
    have hx : x ≠ anchor := fun e => h (e ▸ List.mem_cons_self ..)
    have ih := @beforeIn_append rest front fun hm => h (List.mem_cons_of_mem x hm)
    simp only [List.cons_append, beforeIn, if_neg hx, ih]

theorem not_mem_front (hl : l.ids = front ++ anchor :: back) : anchor ∉ front := by
  have hnodup := l.nodup_ids
  rw [hl, List.nodup_append] at hnodup
  exact fun hm => hnodup.2.2 anchor hm anchor List.mem_cons_self rfl

theorem insertAfter_eq_ok (h : insertAfter anchor i l = .ok new l')
    (hl : l.ids = front ++ anchor :: back) :
    new = .ofSlot l.slots.size ∧ l.Inserts l' i (front ++ [anchor]) back := by
  unfold insertAfter at h
  split at h
  · split at h
    · rename_i hroom
      cases h
      refine ⟨rfl, hroom, rfl, by rw [hl]; simp, ?_⟩
      show afterIn anchor _ l.ids = _
      rw [hl, afterIn_append (not_mem_front hl)]
      simp
    · cases h
  · cases h

theorem insertBefore_eq_ok (h : insertBefore anchor i l = .ok new l')
    (hl : l.ids = front ++ anchor :: back) :
    new = .ofSlot l.slots.size ∧ l.Inserts l' i front (anchor :: back) := by
  unfold insertBefore at h
  split at h
  · split at h
    · rename_i hroom
      cases h
      refine ⟨rfl, hroom, rfl, hl, ?_⟩
      show beforeIn anchor _ l.ids = _
      rw [hl, beforeIn_append (not_mem_front hl)]
    · cases h
  · cases h

end Inserts

section Entries

variable {front back : List (InstrId × Instruction)} {a : Instruction}

theorem ids_of_split (hl : l.entries = front ++ (id, i) :: back) :
    l.ids = front.map Prod.fst ++ id :: back.map Prod.fst := by
  rw [ids_eq_of_entries hl, List.map_append, List.map_cons]

theorem entries_insertAfter (h : insertAfter anchor i l = .ok new l')
    (hl : l.entries = front ++ (anchor, a) :: back) :
    new = .ofSlot l.slots.size ∧ l'.slots.size = l.slots.size + 1 ∧
      l'.entries = front ++ (anchor, a) :: (new, i) :: back := by
  obtain ⟨rfl, hinserts⟩ := insertAfter_eq_ok h (ids_of_split hl)
  have hinserts : l.Inserts l' i ((front ++ [(anchor, a)]).map Prod.fst) (back.map Prod.fst) := by
    rw [List.map_append]
    exact hinserts
  refine ⟨rfl, by rw [hinserts.slots, Array.size_push], ?_⟩
  rw [hinserts.entries (by rw [hl]; simp)]
  simp

theorem entries_insertBefore (h : insertBefore anchor i l = .ok new l')
    (hl : l.entries = front ++ (anchor, a) :: back) :
    new = .ofSlot l.slots.size ∧ l'.slots.size = l.slots.size + 1 ∧
      l'.entries = front ++ (new, i) :: (anchor, a) :: back := by
  obtain ⟨rfl, hinserts⟩ := insertBefore_eq_ok h (ids_of_split hl)
  have hinserts : l.Inserts l' i (front.map Prod.fst) (((anchor, a) :: back).map Prod.fst) :=
    hinserts
  exact ⟨rfl, by rw [hinserts.slots, Array.size_push], hinserts.entries hl⟩

end Entries

/-! ## Edits that are carried out, and edits that are refused -/

theorem exists_push (i : Instruction) (hroom : l.slots.size < UInt32.size) :
    ∃ new l', push i l = .ok new l' := by
  unfold push
  rw [dif_pos hroom]
  exact ⟨_, _, rfl⟩

theorem exists_insertAfter (i : Instruction) (h : anchor ∈ l.ids)
    (hroom : l.slots.size < UInt32.size) : ∃ new l', insertAfter anchor i l = .ok new l' := by
  unfold insertAfter
  rw [dif_pos (mem_ids.mp h), dif_pos hroom]
  exact ⟨_, _, rfl⟩

theorem exists_insertBefore (i : Instruction) (h : anchor ∈ l.ids)
    (hroom : l.slots.size < UInt32.size) : ∃ new l', insertBefore anchor i l = .ok new l' := by
  unfold insertBefore
  rw [dif_pos (mem_ids.mp h), dif_pos hroom]
  exact ⟨_, _, rfl⟩

/-- A removal takes the handle out of the order and leaves its slot without links. -/
theorem exists_remove (hi : l.get? id = some i) :
    ∃ l', remove id l = .ok i l' ∧ l'.ids = l.ids.erase id ∧
      l'.slots = l.slots.modify id.slot fun s => { s with place := .detached none none } := by
  unfold remove
  rw [hi]
  exact ⟨_, rfl, rfl, rfl⟩

theorem insertAfter_of_not_mem (i : Instruction) (h : anchor ∉ l.ids) :
    insertAfter anchor i l = .error (.dangling (.anchor anchor)) l := by
  unfold insertAfter
  exact dif_neg fun hc => h (mem_ids.mpr hc)

theorem insertBefore_of_not_mem (i : Instruction) (h : anchor ∉ l.ids) :
    insertBefore anchor i l = .error (.dangling (.anchor anchor)) l := by
  unfold insertBefore
  exact dif_neg fun hc => h (mem_ids.mpr hc)

theorem remove_of_not_mem (h : id ∉ l.ids) :
    remove id l = .error (.dangling (.anchor id)) l := by
  unfold remove
  rw [get?_eq_none h]

theorem modify_of_not_mem (f : Instruction → Instruction) (h : id ∉ l.ids) :
    l.modify id f = l := by
  unfold modify
  exact if_neg fun hc => h (mem_ids.mpr hc)

end CilWeave.InstructionList
