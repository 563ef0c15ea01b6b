import CilWeave.Proofs.Encoding.Recoding
import CilWeave.Proofs.InstructionList.Edits
import CilWeave.Rewrite.Replacement

/-
What a replacement does to the sequence of instructions.

The code of a body is seen as `entries`, the handles in order with their instructions.
An insertion puts new entries behind one of them, with the handles of the slots that come
next (`numbered`). `replace_eq_ok` states the whole replacement at one place of the
sequence: the first instruction changes where it is, the others follow it, and the
trailer stands behind the entry that comes next.
-/

namespace CilWeave

namespace InstructionList

variable {l l' : InstructionList}

def numbered (n : Nat) : List Instruction → List (InstrId × Instruction)
  | [] => []
  | i :: rest => (InstrId.ofSlot n, i) :: numbered (n + 1) rest

end InstructionList

namespace MethodBody

open InstructionList (numbered)

variable {b b' : MethodBody}

/-- What an edit of the code leaves alone. -/
structure SameApart (b b' : MethodBody) : Prop where
  locals : b'.locals = b.locals
  handlers : b'.handlers = b.handlers

theorem SameApart.trans {b'' : MethodBody} (h : SameApart b b') (h' : SameApart b' b'') :
    SameApart b b'' := ⟨h'.1.trans h.1, h'.2.trans h.2⟩

theorem sameApart_modifyAt (b : MethodBody) (id : InstrId) (f : Instruction → Instruction) :
    SameApart b (b.modifyAt id f) := ⟨rfl, rfl⟩

theorem sameApart_insertAllAfter : ∀ {code : List Instruction} {anchor last : InstrId}
    {b b' : MethodBody}, insertAllAfter anchor code b = .ok last b' → SameApart b b'
  | [], _, _, _, _, h => by
    cases h
    exact ⟨rfl, rfl⟩
  | i :: rest, anchor, last, b, b', h => by
    obtain ⟨new, code, -, h⟩ := insertAllAfter_cons_eq_ok h
    have hsame := sameApart_insertAllAfter h
    exact ⟨hsame.1, hsame.2⟩

theorem sameApart_insertTrailer {last : InstrId} {trailer : List Instruction}
    (h : insertTrailer last trailer b = .ok () b') : SameApart b b' := by
  unfold insertTrailer at h
  split at h
  · cases h
    exact ⟨rfl, rfl⟩
  · split at h
    · cases h
    · split at h
      · cases h
      · rename_i hinsert
        cases h
        exact sameApart_insertAllAfter hinsert

theorem sameApart_replace {site : InstrId} {r : Replacement}
    (h : replace site r b = .ok () b') : SameApart b b' := by
  unfold replace at h
  split at h
  · cases h
  · split at h
    · simp only at h
      split at h
      · cases h
      · rename_i hinsert
        have hrest := sameApart_insertAllAfter hinsert
        exact (sameApart_modifyAt b site _).trans (hrest.trans (sameApart_insertTrailer h))
    · cases h

theorem insertAllAfter_eq_ok : ∀ {code : List Instruction} {anchor last : InstrId}
    {b b' : MethodBody} {front back : List (InstrId × Instruction)} {a : Instruction},
    insertAllAfter anchor code b = .ok last b' → b.code.entries = front ++ (anchor, a) :: back →
    b'.code.slots.size = b.code.slots.size + code.length ∧
      b'.code.entries = front ++ (anchor, a) :: (numbered b.code.slots.size code ++ back) ∧
      ∃ init x, (anchor, a) :: numbered b.code.slots.size code = init ++ [(last, x)]
  | [], anchor, last, b, b', front, back, a, h, hb => by
    cases h
    exact ⟨rfl, hb, [], a, rfl⟩
  | i :: rest, anchor, last, b, b', front, back, a, h, hb => by
    obtain ⟨new, code, hinsert, h⟩ := insertAllAfter_cons_eq_ok h
    obtain ⟨rfl, hsize, hentries⟩ := InstructionList.entries_insertAfter hinsert hb
    have hsplit : code.entries =
        (front ++ [(anchor, a)]) ++ (InstrId.ofSlot b.code.slots.size, i) :: back := by
      rw [hentries]; simp
    obtain ⟨hsize', hentries', init, x, hlast⟩ := insertAllAfter_eq_ok h hsplit
    simp only at hsize' hentries' hlast
    rw [hsize] at hsize' hentries' hlast
    refine ⟨?_, ?_, (anchor, a) :: init, x, ?_⟩
    · rw [hsize', List.length_cons]; omega
    · rw [hentries', numbered]; simp
    · rw [numbered, hlast, List.cons_append]

def behindFirst (trailer : List (InstrId × Instruction)) :
    List (InstrId × Instruction) → List (InstrId × Instruction)
  | [] => []
  | e :: rest => e :: (trailer ++ rest)

theorem insertTrailer_eq_ok {last : InstrId} {trailer : List Instruction} {x : Instruction}
    {front back : List (InstrId × Instruction)} (h : insertTrailer last trailer b = .ok () b')
    (hb : b.code.entries = front ++ (last, x) :: back) :
    b'.code.slots.size = b.code.slots.size + trailer.length ∧
      b'.code.entries =
        front ++ (last, x) :: behindFirst (numbered b.code.slots.size trailer) back := by
  unfold insertTrailer at h
  split at h
  · cases h
    refine ⟨rfl, ?_⟩
    rw [hb]
    cases back <;> rfl
  · split at h
    · cases h
    · rename_i next hnext
      split at h
      · cases h
      · rename_i hinsert
        cases h
        have hids := InstructionList.ids_eq_of_entries hb
        rw [List.map_append, List.map_cons] at hids
        rw [InstructionList.next?_of_split hids] at hnext
        cases back with
        | nil => cases hnext
        | cons e back =>
          obtain ⟨id, y⟩ := e
          cases hnext
          have hsplit : b.code.entries = (front ++ [(last, x)]) ++ (id, y) :: back := by
            rw [hb]; simp
          obtain ⟨hsize, hentries, -⟩ := insertAllAfter_eq_ok hinsert hsplit
          refine ⟨hsize, ?_⟩
          rw [hentries, behindFirst]
          simp

/-- A replacement takes the place of one instruction and leaves the others as they are, in
their order. -/
theorem replace_eq_ok {site : InstrId} {first i : Instruction} {rest trailer : List Instruction}
    {front back : List (InstrId × Instruction)}
    (h : replace site ⟨first :: rest, trailer⟩ b = .ok () b')
    (hb : b.code.entries = front ++ (site, i) :: back) :
    b'.code.slots.size = b.code.slots.size + rest.length + trailer.length ∧
      b'.code.entries = front ++ (site, i.recode first.op first.operand) ::
        (numbered b.code.slots.size rest ++
          behindFirst (numbered (b.code.slots.size + rest.length) trailer) back) := by
  unfold replace at h
  simp only at h
  split at h
  · have hmodify := InstructionList.entries_modify
      (fun i => i.recode first.op first.operand) hb
    have hslots := InstructionList.slots_modify b.code site fun i => i.recode first.op first.operand
    cases hinsert : insertAllAfter site rest
        (b.modifyAt site fun i => i.recode first.op first.operand) with
    | error e s => rw [hinsert] at h; cases h
    | ok last s =>
      rw [hinsert] at h
      obtain ⟨hsize, hentries, init, x, hlast⟩ := insertAllAfter_eq_ok hinsert hmodify
      have hsize : s.code.slots.size = b.code.slots.size + rest.length := by
        rw [hsize]; exact congrArg (· + rest.length) hslots
      have hnumbers : (b.modifyAt site fun i => i.recode first.op first.operand).code.slots.size
          = b.code.slots.size := hslots
      rw [hnumbers] at hentries hlast
      -- The trailer goes behind the entry after the last one that was inserted.
      have hsplit : s.code.entries = (front ++ init) ++ (last, x) :: back := by
        rw [hentries, ← List.cons_append, hlast]; simp
      obtain ⟨hsize', hentries'⟩ := insertTrailer_eq_ok h hsplit
      refine ⟨by rw [hsize', hsize], ?_⟩
      rw [hentries', hsize]
      generalize behindFirst (numbered (b.code.slots.size + rest.length) trailer) back = tail
      calc (front ++ init) ++ (last, x) :: tail
          = front ++ ((init ++ [(last, x)]) ++ tail) := by simp
        _ = front ++ (site, i.recode first.op first.operand) ::
              (numbered b.code.slots.size rest ++ tail) := by rw [← hlast]; simp
  · cases h

theorem sequence_ne_nil_of_replace {site : InstrId} {r : Replacement}
    (h : replace site r b = .ok () b') : r.sequence ≠ [] := by
  unfold replace at h
  intro hnil
  rw [hnil] at h
  cases h

end MethodBody

end CilWeave
