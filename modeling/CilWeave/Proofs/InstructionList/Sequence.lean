import CilWeave.Proofs.InstructionList.Edits

/-
An instruction list is a plain sequence.

`CodeSequence` is what an instruction list stands for: the instructions with their handles,
in order, and the number of handles that were ever given out. An edit of it needs no slots
and no links. An edit of a list does to `InstructionList.sequence` what it does to the
sequence, and answers the same (`edit_sequence`); so does a run of edits
(`run_sequence`). Handles are given out in the order of the slots, so none is given out
twice, not even that of an instruction that is gone.
-/

namespace CilWeave

/-- An edit of the code of a method. -/
inductive ListEdit where
  /-- A new last instruction. -/
  | push (i : Instruction)
  /-- A new instruction directly after another one. -/
  | insertAfter (anchor : InstrId) (i : Instruction)
  /-- A new instruction directly before another one. -/
  | insertBefore (anchor : InstrId) (i : Instruction)
  /-- An instruction taken out. -/
  | remove (id : InstrId)
  /-- Another instruction under the same handle. -/
  | assign (id : InstrId) (i : Instruction)
  deriving DecidableEq, Repr, Inhabited

/-- What comes back from an edit. -/
inductive EditAnswer where
  /-- The handle of the new instruction. -/
  | inserted (id : InstrId)
  /-- The instruction that was taken out. -/
  | removed (i : Instruction)
  /-- The instruction was assigned. -/
  | assigned
  /-- There is no instruction to assign to. -/
  | absent
  /-- The edit is refused. -/
  | refused (e : Error)
  deriving DecidableEq, Repr, Inhabited

/-- What comes back from the result of an edit, and the state that the edit leaves. -/
def EditAnswer.of {σ α : Type} (answer : α → EditAnswer) :
    EStateM.Result Error σ α → EditAnswer × σ
  | .ok a s => (answer a, s)
  | .error e s => (.refused e, s)

def insertedHandles (answers : List EditAnswer) : List InstrId :=
  answers.filterMap fun
    | .inserted id => some id
    | _ => none

/-! ## Plain sequences -/

/-- Instructions with handles in order, and how many handles were ever given out. -/
structure CodeSequence where
  /-- The instructions with their handles. -/
  entries : List (InstrId × Instruction)
  /-- How many handles were given out. -/
  issued : Nat
  deriving DecidableEq, Repr, Inhabited

namespace CodeSequence

def ids (s : CodeSequence) : List InstrId := s.entries.map Prod.fst

/-- The handle that is given out next. -/
def fresh (s : CodeSequence) : InstrId := .ofSlot s.issued

/-- `x` comes directly after `id`. -/
def Follows (s : CodeSequence) (id x : InstrId) : Prop := [id, x] <:+: s.ids

def inPlaceOf (id : InstrId) (block : InstrId × Instruction → List (InstrId × Instruction))
    (entries : List (InstrId × Instruction)) : List (InstrId × Instruction) :=
  entries.flatMap fun e => if e.1 = id then block e else [e]

/-- What an edit does to the sequence, and what it answers. -/
def edit (s : CodeSequence) : ListEdit → EditAnswer × CodeSequence
  | .push i => (.inserted s.fresh, ⟨s.entries ++ [(s.fresh, i)], s.issued + 1⟩)
  | .insertAfter anchor i =>
    if anchor ∈ s.ids then
      (.inserted s.fresh,
        ⟨inPlaceOf anchor (fun e => [e, (s.fresh, i)]) s.entries, s.issued + 1⟩)
    else (.refused (.dangling (.anchor anchor)), s)
  | .insertBefore anchor i =>
    if anchor ∈ s.ids then
      (.inserted s.fresh,
        ⟨inPlaceOf anchor (fun e => [(s.fresh, i), e]) s.entries, s.issued + 1⟩)
    else (.refused (.dangling (.anchor anchor)), s)
  | .remove id =>
    match s.entries.lookup id with
    | some i => (.removed i, ⟨inPlaceOf id (fun _ => []) s.entries, s.issued⟩)
    | none => (.refused (.dangling (.anchor id)), s)
  | .assign id i =>
    if id ∈ s.ids then (.assigned, ⟨inPlaceOf id (fun _ => [(id, i)]) s.entries, s.issued⟩)
    else (.absent, s)

def run : List ListEdit → CodeSequence → List EditAnswer × CodeSequence
  | [], s => ([], s)
  | e :: rest, s =>
    let (answer, s) := s.edit e
    let (answers, s) := run rest s
    (answer :: answers, s)

/-- An edit gives out one more handle if it answers one, and none otherwise. -/
theorem issued_edit (s : CodeSequence) (e : ListEdit) :
    (s.edit e).1 = .inserted s.fresh ∧ (s.edit e).2.issued = s.issued + 1 ∨
      (∀ id, (s.edit e).1 ≠ .inserted id) ∧ (s.edit e).2.issued = s.issued := by
  cases e with
  | push i => exact .inl ⟨rfl, rfl⟩
  | insertAfter anchor i | insertBefore anchor i =>
    unfold edit
    by_cases h : anchor ∈ s.ids
    · simp only [if_pos h]
      exact .inl ⟨trivial, trivial⟩
    · simp only [if_neg h]
      exact .inr ⟨nofun, trivial⟩
  | remove id =>
    unfold edit
    cases h : s.entries.lookup id with
    | some i => simp only [h]; exact .inr ⟨nofun, trivial⟩
    | none => simp only [h]; exact .inr ⟨nofun, trivial⟩
  | assign id i =>
    unfold edit
    by_cases h : id ∈ s.ids
    · simp only [if_pos h]
      exact .inr ⟨nofun, trivial⟩
    · simp only [if_neg h]
      exact .inr ⟨nofun, trivial⟩

theorem le_issued_edit (s : CodeSequence) (e : ListEdit) : s.issued ≤ (s.edit e).2.issued := by
  rcases s.issued_edit e with ⟨-, h⟩ | ⟨-, h⟩ <;> omega

theorem le_issued_run : ∀ (edits : List ListEdit) (s : CodeSequence),
    s.issued ≤ (run edits s).2.issued
  | [], _ => Nat.le_refl _
  | e :: rest, s => Nat.le_trans (s.le_issued_edit e) (le_issued_run rest _)

/-- The handles that a run gives out are the ones of the next numbers, in order. -/
theorem insertedHandles_run : ∀ (edits : List ListEdit) (s : CodeSequence),
    insertedHandles (run edits s).1 =
      (List.range' s.issued ((run edits s).2.issued - s.issued)).map InstrId.ofSlot
  | [], s => by simp [run, insertedHandles]
  | e :: rest, s => by
    have ih := insertedHandles_run rest (s.edit e).2
    have hle := le_issued_run rest (s.edit e).2
    have hrun : insertedHandles (run (e :: rest) s).1 =
        insertedHandles [(s.edit e).1] ++ insertedHandles (run rest (s.edit e).2).1 :=
      List.filterMap_append (l := [(s.edit e).1])
    have hlast : (run (e :: rest) s).2 = (run rest (s.edit e).2).2 := rfl
    rw [hrun, hlast, ih]
    rcases s.issued_edit e with ⟨hanswer, hissued⟩ | ⟨hanswer, hissued⟩
    · have hcount : (run rest (s.edit e).2).2.issued - s.issued =
          (run rest (s.edit e).2).2.issued - (s.edit e).2.issued + 1 := by omega
      rw [hcount, List.range'_succ, hanswer, hissued]
      rfl
    · have hnone : insertedHandles [(s.edit e).1] = [] := by
        unfold insertedHandles
        cases h : (s.edit e).1 with
        | inserted id => exact absurd h (hanswer id)
        | removed | assigned | absent | refused => rfl
      rw [hnone, hissued]
      rfl

end CodeSequence

namespace InstructionList

variable {l : InstructionList} {i : Instruction} {id anchor : InstrId}

def sequence (l : InstructionList) : CodeSequence := ⟨l.entries, l.slots.size⟩

theorem ids_sequence (l : InstructionList) : l.sequence.ids = l.ids := l.map_fst_entries

/-- What a list answers is what its sequence says. -/
structure Answers (l : InstructionList) (s : CodeSequence) : Prop where
  nodup : s.ids.Nodup
  slot_lt : ∀ id ∈ s.ids, id.slot < s.issued
  entries : l.entries = s.entries
  ids : l.ids = s.ids
  length : l.length = s.entries.length
  isEmpty : l.isEmpty = s.entries.isEmpty
  first? : l.first? = s.ids.head?
  last? : l.last? = s.ids.getLast?
  contains : ∀ id, l.contains id = true ↔ id ∈ s.ids
  get? : ∀ id, l.get? id = s.entries.lookup id
  next? : ∀ id x, l.next? id = some x ↔ s.Follows id x
  prev? : ∀ id x, l.prev? id = some x ↔ s.Follows x id
  position? : ∀ id n, l.position? id = some n ↔ s.ids[n]? = some id
  nth? : ∀ n, l.nth? n = s.ids[n]?

/-! ## One entry and the others -/

theorem inPlaceOf_split {front back : List (InstrId × Instruction)}
    (h : l.entries = front ++ (id, i) :: back)
    (block : InstrId × Instruction → List (InstrId × Instruction)) :
    CodeSequence.inPlaceOf id block l.entries = front ++ (block (id, i) ++ back) := by
  have hne := ne_of_split h
  have hkept : ∀ es : List (InstrId × Instruction), (∀ e ∈ es, e.1 ≠ id) →
      (es.flatMap fun e => if e.1 = id then block e else [e]) = es := by
    intro es hes
    induction es with
    | nil => rfl
    | cons e rest ih =>
      rw [List.flatMap_cons, if_neg (hes e (by simp)),
        ih fun x hx => hes x (List.mem_cons_of_mem e hx)]
      rfl
  unfold CodeSequence.inPlaceOf
  rw [h, List.flatMap_append, List.flatMap_cons, if_pos rfl,
    hkept front fun e he => hne e (List.mem_append_left _ he),
    hkept back fun e he => hne e (List.mem_append_right _ he)]

theorem lookup_entries (l : InstructionList) (id : InstrId) : l.entries.lookup id = l.get? id := by
  by_cases hid : id ∈ l.ids
  · obtain ⟨front, i, back, hsplit⟩ := exists_split hid
    have hne := ne_of_split hsplit
    rw [get?_of_entries hsplit (by simp : (id, i) ∈ _), hsplit, List.lookup_eq_some_iff]
    refine ⟨front, back, rfl, fun e he => ?_⟩
    exact bne_iff_ne.mpr fun heq => hne e (List.mem_append_left _ he) heq.symm
  · rw [get?_eq_none hid, List.lookup_eq_none_iff]
    intro e he
    refine bne_iff_ne.mpr fun heq => hid ?_
    rw [heq, ← map_fst_entries]
    exact List.mem_map_of_mem he

theorem answers_sequence (l : InstructionList) : l.Answers l.sequence where
  nodup := l.ids_sequence ▸ l.nodup_ids
  slot_lt id h := slot_lt_of_mem (l.ids_sequence ▸ h)
  entries := rfl
  ids := l.ids_sequence.symm
  length := l.length_entries.symm
  isEmpty := by
    rw [Bool.eq_iff_iff, isEmpty_iff, ← map_fst_entries, List.map_eq_nil_iff,
      List.isEmpty_iff]
    rfl
  first? := by rw [ids_sequence, List.head?_eq_getElem?, first?_eq]
  last? := by
    rw [ids_sequence]
    exact (Array.getLast?_toList ..).symm
  contains id := by rw [ids_sequence, mem_ids]
  get? id := (l.lookup_entries id).symm
  next? id x := by
    rw [next?_eq_some_iff, CodeSequence.Follows, ids_sequence]
  prev? id x := by
    rw [prev?_eq_some_iff, CodeSequence.Follows, ids_sequence]
  position? id n := by rw [ids_sequence, position?_eq_some]
  nth? n := by
    rw [ids_sequence]
    exact l.order_getElem? n

/-! ## Edits -/

theorem sequence_eq {es : List (InstrId × Instruction)} {n : Nat} (hentries : l.entries = es)
    (hsize : l.slots.size = n) : l.sequence = ⟨es, n⟩ := by
  unfold sequence
  rw [hentries, hsize]

theorem push_of_lt (l : InstructionList) (i : Instruction) (hroom : l.slots.size < UInt32.size) :
    ∃ l', push i l = .ok (.ofSlot l.slots.size) l' ∧
      l'.sequence = ⟨l.entries ++ [(.ofSlot l.slots.size, i)], l.slots.size + 1⟩ := by
  obtain ⟨new, l', hl'⟩ := exists_push i hroom
  obtain ⟨rfl, hinserts⟩ := push_eq_ok hl'
  have hinserts : l.Inserts l' i (l.entries.map Prod.fst)
      (([] : List (InstrId × Instruction)).map Prod.fst) := by
    rw [map_fst_entries]
    exact hinserts
  refine ⟨l', hl', sequence_eq ?_ (by rw [hinserts.slots, Array.size_push])⟩
  exact hinserts.entries (List.append_nil _).symm

/-- Instructions that are pushed one after the other stand behind those there were, under new
handles in order. -/
theorem exists_pushAll : ∀ (code : List Instruction) (l : InstructionList),
    l.slots.size + code.length ≤ UInt32.size →
    ∃ l', pushAll code l = .ok () l' ∧
      l'.entries = l.entries ++ (code.zipIdx l.slots.size).map fun p => (.ofSlot p.2, p.1)
  | [], l, _ => ⟨l, rfl, by simp⟩
  | i :: rest, l, hroom => by
    rw [List.length_cons] at hroom
    obtain ⟨pushed, hpush, hsequence⟩ := push_of_lt l i (by omega)
    have hentries : pushed.entries = l.entries ++ [(.ofSlot l.slots.size, i)] :=
      congrArg CodeSequence.entries hsequence
    have hsize : pushed.slots.size = l.slots.size + 1 := congrArg CodeSequence.issued hsequence
    obtain ⟨l', hrest, hl'⟩ := exists_pushAll rest pushed (by omega)
    refine ⟨l', ?_, ?_⟩
    · rw [pushAll, hpush]
      exact hrest
    · rw [hl', hentries, hsize, List.zipIdx_cons, List.map_cons, List.append_assoc]
      rfl

theorem exists_ofList {code : List Instruction} (h : code.length ≤ UInt32.size) :
    ∃ l, ofList code = .ok l ∧ l.entries = code.zipIdx.map fun p => (.ofSlot p.2, p.1) := by
  obtain ⟨l, hl, hentries⟩ := exists_pushAll code empty (by simpa [empty] using h)
  refine ⟨l, ?_, hentries⟩
  unfold ofList
  rw [hl]

theorem ids_of_zipIdx {l : InstructionList} {code : List Instruction}
    (h : l.entries = code.zipIdx.map fun p => (.ofSlot p.2, p.1)) :
    l.ids = (List.range code.length).map .ofSlot := by
  rw [ids_eq_of_entries h, List.map_map, List.range_eq_range', ← List.zipIdx_map_snd 0 code,
    List.map_map]
  rfl

theorem instructions_of_zipIdx {l : InstructionList} {code : List Instruction}
    (h : l.entries = code.zipIdx.map fun p => (.ofSlot p.2, p.1)) : l.instructions = code := by
  rw [← map_snd_entries, h, List.map_map]
  exact List.zipIdx_map_fst 0 code

theorem get?_of_zipIdx {l : InstructionList} {code : List Instruction} {n : Nat}
    (h : l.entries = code.zipIdx.map fun p => (.ofSlot p.2, p.1))
    (hlength : code.length ≤ UInt32.size) (hn : n < UInt32.size) :
    l.get? (.ofSlot n) = code[n]? := by
  ext i
  rw [← mem_entries, h, List.mem_map]
  constructor
  · rintro ⟨⟨j, m⟩, hmem, heq⟩
    obtain ⟨hslot, rfl⟩ := Prod.mk.inj heq
    have hj : code[m]? = some j := List.mem_zipIdx_iff_getElem?.mp hmem
    have hm : m < code.length := (List.getElem?_eq_some_iff.mp hj).1
    have hsame := congrArg InstrId.slot hslot
    rw [InstrId.slot_ofSlot (Nat.lt_of_lt_of_le hm hlength), InstrId.slot_ofSlot hn] at hsame
    exact hsame ▸ hj
  · intro hi
    exact ⟨(i, n), List.mem_zipIdx_iff_getElem?.mpr hi, rfl⟩

theorem insertAfter_of_mem (i : Instruction) (h : anchor ∈ l.ids)
    (hroom : l.slots.size < UInt32.size) :
    ∃ l', insertAfter anchor i l = .ok (.ofSlot l.slots.size) l' ∧
      l'.sequence = ⟨CodeSequence.inPlaceOf anchor (fun e => [e, (.ofSlot l.slots.size, i)])
        l.entries, l.slots.size + 1⟩ := by
  obtain ⟨front, a, back, hsplit⟩ := exists_split h
  obtain ⟨new, l', hl'⟩ := exists_insertAfter i h hroom
  obtain ⟨rfl, hsize, hentries⟩ := entries_insertAfter hl' hsplit
  refine ⟨l', hl', sequence_eq ?_ hsize⟩
  rw [inPlaceOf_split hsplit, hentries]
  rfl

theorem insertBefore_of_mem (i : Instruction) (h : anchor ∈ l.ids)
    (hroom : l.slots.size < UInt32.size) :
    ∃ l', insertBefore anchor i l = .ok (.ofSlot l.slots.size) l' ∧
      l'.sequence = ⟨CodeSequence.inPlaceOf anchor (fun e => [(.ofSlot l.slots.size, i), e])
        l.entries, l.slots.size + 1⟩ := by
  obtain ⟨front, a, back, hsplit⟩ := exists_split h
  obtain ⟨new, l', hl'⟩ := exists_insertBefore i h hroom
  obtain ⟨rfl, hsize, hentries⟩ := entries_insertBefore hl' hsplit
  refine ⟨l', hl', sequence_eq ?_ hsize⟩
  rw [inPlaceOf_split hsplit, hentries]
  rfl

theorem remove_of_get? (hi : l.get? id = some i) :
    ∃ l', remove id l = .ok i l' ∧
      l'.sequence = ⟨CodeSequence.inPlaceOf id (fun _ => []) l.entries, l.slots.size⟩ := by
  obtain ⟨front, a, back, hsplit⟩ := exists_split (mem_ids_of_get? hi)
  obtain ⟨l', hl', hids, hslots⟩ := exists_remove hi
  refine ⟨l', hl', sequence_eq ?_ (by rw [hslots, Array.size_modify])⟩
  rw [inPlaceOf_split hsplit]
  refine entries_eq ?_ fun e he => ?_
  · have hl := ids_eq_of_entries hsplit
    rw [List.map_append, List.map_cons] at hl
    rw [hids, hl, List.erase_append_right _ (not_mem_front hl), List.erase_cons_head]
    simp
  · have hslot : id.slot ≠ e.1.slot := fun heq =>
      ne_of_split hsplit e he (InstrId.slot_injective heq).symm
    have hget : l'.get? e.1 = l.get? e.1 := by
      simp only [get?, hslots, Array.getElem?_modify, if_neg hslot]
    rw [hget]
    refine get?_of_entries hsplit ?_
    simp only [List.nil_append, List.mem_append, List.mem_cons] at he ⊢
    exact he.imp_right .inr

theorem sequence_modify (i : Instruction) (h : id ∈ l.ids) :
    (l.modify id fun _ => i).sequence =
      ⟨CodeSequence.inPlaceOf id (fun _ => [(id, i)]) l.entries, l.slots.size⟩ := by
  obtain ⟨front, a, back, hsplit⟩ := exists_split h
  refine sequence_eq ?_ (slots_modify l id _)
  rw [inPlaceOf_split hsplit, entries_modify _ hsplit]
  rfl

def edit (l : InstructionList) : ListEdit → EditAnswer × InstructionList
  | .push i => EditAnswer.of .inserted (push i l)
  | .insertAfter anchor i => EditAnswer.of .inserted (insertAfter anchor i l)
  | .insertBefore anchor i => EditAnswer.of .inserted (insertBefore anchor i l)
  | .remove id => EditAnswer.of .removed (remove id l)
  | .assign id i => (if l.contains id then .assigned else .absent, l.modify id fun _ => i)

def run : List ListEdit → InstructionList → List EditAnswer × InstructionList
  | [], l => ([], l)
  | e :: rest, l =>
    let (answer, l) := l.edit e
    let (answers, l) := run rest l
    (answer :: answers, l)

/-- As long as there are handles, an edit of a list does what it does to the sequence. -/
theorem edit_sequence (l : InstructionList) (e : ListEdit)
    (h : (l.sequence.edit e).2.issued ≤ UInt32.size) :
    (l.edit e).1 = (l.sequence.edit e).1 ∧ (l.edit e).2.sequence = (l.sequence.edit e).2 := by
  cases e with
  | push i =>
    obtain ⟨l', hl', hsequence⟩ := l.push_of_lt i h
    simp only [edit, hl', EditAnswer.of, hsequence]
    exact ⟨rfl, rfl⟩
  | insertAfter anchor i =>
    simp only [CodeSequence.edit, ids_sequence] at h ⊢
    by_cases hid : anchor ∈ l.ids
    · rw [if_pos hid] at h ⊢
      obtain ⟨l', hl', hsequence⟩ := insertAfter_of_mem i hid h
      simp only [edit, hl', EditAnswer.of, hsequence]
      exact ⟨rfl, rfl⟩
    · rw [if_neg hid]
      simp only [edit, insertAfter_of_not_mem i hid, EditAnswer.of, and_self]
  | insertBefore anchor i =>
    simp only [CodeSequence.edit, ids_sequence] at h ⊢
    by_cases hid : anchor ∈ l.ids
    · rw [if_pos hid] at h ⊢
      obtain ⟨l', hl', hsequence⟩ := insertBefore_of_mem i hid h
      simp only [edit, hl', EditAnswer.of, hsequence]
      exact ⟨rfl, rfl⟩
    · rw [if_neg hid]
      simp only [edit, insertBefore_of_not_mem i hid, EditAnswer.of, and_self]
  | remove id =>
    have hlookup : l.sequence.entries.lookup id = l.get? id := l.lookup_entries id
    simp only [CodeSequence.edit, hlookup]
    cases hi : l.get? id with
    | some i =>
      obtain ⟨l', hl', hsequence⟩ := remove_of_get? hi
      simp only [edit, hl', EditAnswer.of, hsequence]
      exact ⟨trivial, rfl⟩
    | none => simp only [edit, remove, hi, EditAnswer.of, and_self]
  | assign id i =>
    simp only [CodeSequence.edit, ids_sequence, edit]
    by_cases hid : id ∈ l.ids
    · rw [if_pos hid, if_pos (mem_ids.mp hid)]
      exact ⟨rfl, sequence_modify i hid⟩
    · have hc : ¬ l.contains id = true := fun hc => hid (mem_ids.mpr hc)
      rw [if_neg hid, if_neg hc, modify_of_not_mem _ hid]
      exact ⟨rfl, rfl⟩

/-- As long as there are handles, a run of edits does what it does to the sequence. -/
theorem run_sequence : ∀ (edits : List ListEdit) (l : InstructionList),
    (l.sequence.run edits).2.issued ≤ UInt32.size →
    (run edits l).1 = (CodeSequence.run edits l.sequence).1 ∧
      (run edits l).2.sequence = (CodeSequence.run edits l.sequence).2
  | [], _, _ => ⟨rfl, rfl⟩
  | e :: rest, l, h => by
    have hlater := CodeSequence.le_issued_run rest (l.sequence.edit e).2
    obtain ⟨hanswer, hsequence⟩ := l.edit_sequence e (Nat.le_trans hlater h)
    have ih := run_sequence rest (l.edit e).2
    rw [hsequence] at ih
    obtain ⟨hanswers, hlast⟩ := ih h
    refine ⟨?_, hlast⟩
    show (l.edit e).1 :: (run rest (l.edit e).2).1 = _
    rw [hanswer, hanswers]
    rfl

end InstructionList

end CilWeave
