import CilWeave.InstructionList.Basic

/-
What an instruction list holds, read off its handles.

Two views are enough to speak of a list: `ids`, the handles in order, and `get?`,
the instruction of a handle. `entries` and `instructions` are the same data as
one list, so that a fact about positions is a fact about lists. The lemmas below
say what each edit does to the two views; nothing else unfolds the slots.
-/

namespace CilWeave.InstructionList

/-! ## Handles and their instructions -/

theorem nodup_ids (l : InstructionList) : l.ids.Nodup := l.nodup

theorem mem_ids {l : InstructionList} {id : InstrId} : id ∈ l.ids ↔ l.contains id = true :=
  l.mem_order id

theorem contains_iff {l : InstructionList} {id : InstrId} :
    l.contains id = true ↔ ∃ i, l.get? id = some i := by
  unfold contains get? Slot.attachedAt
  cases l.slots[id.slot]? with
  | none => simp
  | some slot => by_cases h : slot.place = .attached <;> simp [h]

theorem contains_of_get? {l : InstructionList} {id : InstrId} {i : Instruction}
    (h : l.get? id = some i) : l.contains id = true :=
  contains_iff.mpr ⟨i, h⟩

theorem get?_of_mem {l : InstructionList} {id : InstrId} (h : id ∈ l.ids) :
    ∃ i, l.get? id = some i :=
  contains_iff.mp (mem_ids.mp h)

theorem mem_ids_of_get? {l : InstructionList} {id : InstrId} {i : Instruction}
    (h : l.get? id = some i) : id ∈ l.ids :=
  mem_ids.mpr (contains_of_get? h)

theorem get?_eq_none {l : InstructionList} {id : InstrId} (h : id ∉ l.ids) :
    l.get? id = none := by
  cases hg : l.get? id with
  | none => rfl
  | some i => exact absurd (mem_ids_of_get? hg) h

theorem isEmpty_iff {l : InstructionList} : l.isEmpty = true ↔ l.ids = [] := by
  simp [isEmpty, ids]

/-! ## The list as one sequence -/

theorem filterMap_pair {l : InstructionList} :
    ∀ {order : List InstrId}, (∀ id ∈ order, id ∈ l.ids) →
      (order.filterMap fun id => (l.get? id).map (id, ·)).map Prod.fst = order
  | [], _ => rfl
  | id :: rest, h => by
    obtain ⟨i, hi⟩ := get?_of_mem (h id (by simp))
    have ih := filterMap_pair fun x hx => h x (List.mem_cons_of_mem id hx)
    simp [hi, ih]

theorem map_fst_entries (l : InstructionList) : l.entries.map Prod.fst = l.ids :=
  filterMap_pair fun _ h => h

theorem map_snd_entries (l : InstructionList) : l.entries.map Prod.snd = l.instructions := by
  unfold entries instructions
  rw [List.map_filterMap]
  congr 1
  funext id
  cases l.get? id <;> rfl

theorem mem_entries {l : InstructionList} {id : InstrId} {i : Instruction} :
    (id, i) ∈ l.entries ↔ l.get? id = some i := by
  unfold entries
  rw [List.mem_filterMap]
  constructor
  · rintro ⟨id', _, h⟩
    cases hg : l.get? id' with
    | none => rw [hg] at h; cases h
    | some i' => rw [hg] at h; cases h; exact hg
  · intro h
    exact ⟨id, mem_ids_of_get? h, by rw [h]; rfl⟩

theorem length_entries (l : InstructionList) : l.entries.length = l.ids.length := by
  rw [← map_fst_entries, List.length_map]

theorem length_instructions (l : InstructionList) : l.instructions.length = l.ids.length := by
  rw [← map_snd_entries, List.length_map, length_entries]

theorem mem_instructions {l : InstructionList} {i : Instruction} :
    i ∈ l.instructions ↔ ∃ id, l.get? id = some i := by
  rw [← map_snd_entries, List.mem_map]
  constructor
  · rintro ⟨⟨id, i'⟩, h, rfl⟩
    exact ⟨id, mem_entries.mp h⟩
  · rintro ⟨id, h⟩
    exact ⟨(id, i), mem_entries.mpr h, rfl⟩

/-- Two lists with the same handles are seen alike by what sees the same at each of them. -/
theorem map_instructions_congr {α : Type} {l l' : InstructionList} {f : Instruction → α}
    (hids : l'.ids = l.ids)
    (h : ∀ id i i', l.get? id = some i → l'.get? id = some i' → f i' = f i) :
    l'.instructions.map f = l.instructions.map f := by
  have hat : ∀ id, (l'.get? id).map f = (l.get? id).map f := by
    intro id
    by_cases hid : id ∈ l.ids
    · obtain ⟨i, hi⟩ := get?_of_mem hid
      obtain ⟨i', hi'⟩ := get?_of_mem (hids ▸ hid)
      rw [hi, hi', Option.map_some, Option.map_some, h id i i' hi hi']
    · rw [get?_eq_none hid, get?_eq_none (fun hid' => hid (hids ▸ hid'))]
  rw [instructions, instructions, List.map_filterMap, List.map_filterMap, hids]
  simp only [hat]

/-- Two lists with the same handles have as many instructions of a kind, if they agree about it
at each of them. -/
theorem countP_instructions_congr {l l' : InstructionList} {p : Instruction → Bool}
    (hids : l'.ids = l.ids)
    (h : ∀ id i i', l.get? id = some i → l'.get? id = some i' → p i' = p i) :
    l'.instructions.countP p = l.instructions.countP p := by
  have hcount : ∀ l : InstructionList, l.instructions.countP p =
      (l.instructions.map p).countP id := fun l => by rw [List.countP_map, Function.id_comp]
  rw [hcount, hcount, map_instructions_congr hids h]

theorem getElem?_entries {l : InstructionList} {p : Nat} {id : InstrId} {i : Instruction} :
    l.entries[p]? = some (id, i) ↔ l.ids[p]? = some id ∧ l.get? id = some i := by
  have hfst : l.ids[p]? = (l.entries[p]?).map Prod.fst := by
    rw [← map_fst_entries, List.getElem?_map]
  constructor
  · intro h
    refine ⟨by rw [hfst, h]; rfl, mem_entries.mp (List.mem_of_getElem? h)⟩
  · rintro ⟨hid, hi⟩
    rw [hfst] at hid
    cases he : l.entries[p]? with
    | none => rw [he] at hid; cases hid
    | some e =>
      obtain ⟨id', i'⟩ := e
      rw [he] at hid
      cases hid
      have := mem_entries.mp (List.mem_of_getElem? he)
      rw [hi] at this
      cases this; rfl

theorem getElem?_instructions {l : InstructionList} {p : Nat} {i : Instruction} :
    l.instructions[p]? = some i ↔ ∃ id, l.ids[p]? = some id ∧ l.get? id = some i := by
  rw [← map_snd_entries, List.getElem?_map]
  constructor
  · intro h
    cases he : l.entries[p]? with
    | none => rw [he] at h; cases h
    | some e =>
      obtain ⟨id, i'⟩ := e
      rw [he] at h
      cases h
      exact ⟨id, getElem?_entries.mp he⟩
  · rintro ⟨id, h⟩
    rw [getElem?_entries.mpr h]; rfl

/-! ## Changing an instruction -/

@[simp] theorem ids_modify (l : InstructionList) (id : InstrId) (f : Instruction → Instruction) :
    (l.modify id f).ids = l.ids := by
  unfold modify; split <;> rfl

theorem slots_modify (l : InstructionList) (id : InstrId) (f : Instruction → Instruction) :
    (l.modify id f).slots.size = l.slots.size := by
  unfold modify
  split
  · exact Array.size_modify
  · rfl

theorem get?_modify (l : InstructionList) (id x : InstrId) (f : Instruction → Instruction) :
    (l.modify id f).get? x = if x = id then (l.get? x).map f else l.get? x := by
  unfold modify
  by_cases hc : l.contains id = true
  · rw [if_pos hc]
    simp only [get?, Array.getElem?_modify]
    by_cases hx : x = id
    · subst hx
      cases l.slots[x.slot]? with
      | none => simp
      | some slot => by_cases hp : slot.place = .attached <;> simp [hp]
    · have : id.slot ≠ x.slot := fun e => hx (InstrId.slot_injective e).symm
      simp [hx, this]
  · rw [if_neg hc]
    by_cases hx : x = id
    · subst hx
      have : l.get? x = none := get?_eq_none fun hm => hc (mem_ids.mp hm)
      simp [this]
    · rw [if_neg hx]

theorem eq_of_slots_of_order {l l' : InstructionList} (hslots : l.slots = l'.slots)
    (horder : l.order = l'.order) : l = l' := by
  cases l
  cases l'
  cases hslots
  cases horder
  rfl

theorem modify_eq_self {l : InstructionList} {id : InstrId} {f : Instruction → Instruction}
    (h : ∀ i, l.get? id = some i → f i = i) : l.modify id f = l := by
  unfold modify
  split
  · refine eq_of_slots_of_order (Array.ext_getElem? fun n => ?_) rfl
    rw [Array.getElem?_modify]
    split
    · rename_i hc hn
      obtain ⟨i, hi⟩ := contains_iff.mp hc
      have hsame := h i hi
      unfold get? at hi
      rw [hn] at hi
      cases hslot : l.slots[n]? with
      | none => rfl
      | some slot =>
        simp only [hslot] at hi
        split at hi
        · cases hi
          simp only [Option.map_some, hsame]
        · cases hi
    · rfl
  · rfl

end CilWeave.InstructionList
