import CilWeave.Proofs.Encoding.Effects
import CilWeave.Proofs.Encoding.Encodable
import CilWeave.Proofs.Encoding.RoundTrip

/-
Which bodies are compacted.

Three things can go wrong and no others: the body cannot be expanded, the stack analysis
refuses it, or its code in smallest form, with all branches long, does not fit the range of
offsets (`MethodBody.exists_compact_iff`). The layout that comes first is the one that needs
most room; each round of shortening only takes some away (`exists_shortenBranches`).
-/

namespace CilWeave

namespace MethodBody

variable {b b' s : MethodBody} {refs : ReferenceTable} {returnType : TypeSig}

/-! ## Laying out -/

theorem exists_layOutFrom : ∀ {ids : List InstrId} {start : UInt32} {b : MethodBody},
    ids.Nodup → start.toNat + b.code.span ids < UInt32.size →
    ∃ n b', layOutFrom ids start b = .ok n b'
  | [], start, b, _, _ => ⟨start, _, rfl⟩
  | id :: rest, start, b, hnodup, hroom => by
    obtain ⟨-, hrest⟩ := List.nodup_cons.mp hnodup
    rw [InstructionList.span] at hroom
    unfold layOutFrom
    cases hi : b.code.get? id with
    | none => exact exists_layOutFrom hrest (by omega)
    | some i =>
      rw [InstructionList.sizeOf_eq hi] at hroom
      have hfits : start.toNat + i.size.toNat < UInt32.size := by omega
      have hstart : (start + i.size).toNat = start.toNat + i.size.toNat :=
        (UInt32.toNat_add ..).trans (Nat.mod_eq_of_lt hfits)
      have hspans := InstructionList.span_congr
        ((mapped_modifyAt b id fun i => { i with offset := start }).sizeOf_eq fun x i => by
          split <;> rfl)
      simp only [if_pos hfits]
      refine exists_layOutFrom hrest ?_
      rw [hstart, hspans]
      omega

theorem exists_layOut_iff :
    (∃ n b', layOut b = .ok n b') ↔ b.code.span b.code.ids < UInt32.size := by
  constructor
  · rintro ⟨n, b', h⟩
    obtain ⟨hlaid, offset, hmap⟩ := layOut_eq_ok h
    have hsize := hlaid.codeSize
    rw [InstructionList.span_congr (hmap.sizeOf_eq fun _ _ => rfl), hmap.ids] at hsize
    rw [← hsize]
    exact b'.codeSize.toNat_lt
  · intro hroom
    exact exists_layOutFrom b.code.nodup_ids (by rwa [UInt32.toNat_zero, Nat.zero_add])

theorem span_shortenAll_le (b : MethodBody) :
    b.shortenAll.code.span b.shortenAll.code.ids ≤ b.code.span b.code.ids := by
  have hmap := mapped_shortenAll b
  rw [hmap.ids]
  refine InstructionList.span_le (hmap.sizeOf_le fun x i => ?_) b.code.ids
  split
  · exact Instruction.size_shortened_le i
  · exact UInt32.le_refl _

/-- Once there is room for the first layout, there is room for all of them. -/
theorem exists_shortenBranches : ∀ (rounds : Nat) {b : MethodBody},
    b.code.span b.code.ids < UInt32.size → ∃ b', shortenBranches rounds b = .ok () b'
  | 0, b, hroom => by
    obtain ⟨n, s, hlay⟩ := exists_layOut_iff.mpr hroom
    unfold shortenBranches
    rw [hlay]
    exact ⟨s, rfl⟩
  | rounds + 1, b, hroom => by
    obtain ⟨n, s, hlay⟩ := exists_layOut_iff.mpr hroom
    obtain ⟨-, offset, hmap⟩ := layOut_eq_ok hlay
    have hspan : s.code.span s.code.ids = b.code.span b.code.ids := by
      rw [InstructionList.span_congr (hmap.sizeOf_eq fun _ _ => rfl), hmap.ids]
    unfold shortenBranches
    rw [hlay]
    simp only
    split
    · exact ⟨s, rfl⟩
    · exact exists_shortenBranches rounds
        (Nat.lt_of_le_of_lt (span_shortenAll_le s) (hspan ▸ hroom))

theorem exists_shortenBranches_iff {rounds : Nat} :
    (∃ b', shortenBranches rounds b = .ok () b') ↔ b.code.span b.code.ids < UInt32.size := by
  refine ⟨fun ⟨b', h⟩ => exists_layOut_iff.mp ?_, exists_shortenBranches rounds⟩
  cases rounds with
  | zero =>
    unfold shortenBranches at h
    split at h
    · cases h
    · exact ⟨_, _, by assumption⟩
  | succ rounds =>
    unfold shortenBranches at h
    split at h
    · cases h
    · exact ⟨_, _, by assumption⟩

/-! ## Compacting -/

/-- The room for the code with every instruction in its smallest form and every branch
long. -/
def roomNeeded (b : MethodBody) : Nat :=
  (b.code.instructions.map fun i => i.expanded.compacted.size.toNat).sum

/-- An expanded body with every instruction in its smallest form, branches apart. -/
def compactAll (s : MethodBody) : MethodBody :=
  s.code.ids.foldl (fun b id => b.modifyAt id Instruction.compacted) s

theorem mapped_compactAll (s : MethodBody) :
    Mapped (fun _ i => i.compacted) s s.compactAll :=
  (mapped_foldl_modifyAt Instruction.compacted s.code.nodup_ids).congr fun _ _ hi =>
    if_pos (InstructionList.mem_ids_of_get? hi)

theorem span_eq_sum (l : InstructionList) :
    l.span l.ids = (l.instructions.map fun i => i.size.toNat).sum := by
  rw [← InstructionList.map_fst_entries, InstructionList.span_eq_bytes fun _ he => he,
    ← InstructionList.map_snd_entries, List.map_map]
  rfl

theorem span_compactAll (hs : Mapped (fun _ i => i.expanded) b s) :
    s.compactAll.code.span s.compactAll.code.ids = b.roomNeeded := by
  rw [span_eq_sum, (hs.trans (mapped_compactAll s)).instructions_eq, List.map_map]
  rfl

/-- The steps of a compaction. -/
theorem compact_of_expand (hs : expand b = .ok () s) : compact refs returnType b =
    match shortenBranches maxRounds s.compactAll with
    | .error e b => .error e b
    | .ok () b =>
      match b.computeMaxStack refs returnType with
      | .error e => .error e b
      | .ok maxStack => .ok () { b with maxStack } := by
  unfold compact
  rw [hs]
  rfl

theorem shortenable_compactAll (hs : expand b = .ok () s) :
    s.compactAll.Shortenable ∧ s.compactAll.Rephrases b := by
  obtain ⟨hexpanded, hfits, hvalid⟩ := expand_eq_ok hs
  have hcompacted := mapped_compactAll s
  have hboth := hexpanded.trans hcompacted
  refine ⟨Shortenable.compacted hboth hfits ?_, hboth.rephrases fun _ i => ?_⟩
  · exact hcompacted.valid hvalid (fun _ i => i.targets_compacted)
      (fun _ _ _ => Instruction.local_of_compacted)
  · exact i.expanded.saysSame_compacted.trans i.saysSame_expanded

/-- A body is compacted exactly if it can be expanded, there is room for its code, and the
stack analysis accepts it. -/
theorem exists_compact_iff : (∃ b', compact refs returnType b = .ok () b') ↔
    (∃ s, expand b = .ok () s) ∧ b.roomNeeded < UInt32.size ∧
      ∃ m, b.computeMaxStack refs returnType = .ok m := by
  constructor
  · rintro ⟨b', h⟩
    obtain ⟨s, hs⟩ := exists_expand_of_compact h
    obtain ⟨hready, hsame⟩ := shortenable_compactAll hs
    obtain ⟨hmap, hfits, -⟩ := expand_eq_ok hs
    rw [compact_of_expand hs] at h
    split at h
    · cases h
    · rename_i c hshorten
      obtain ⟨hready', -, hshort⟩ := shortenBranches_eq_ok hready hshorten
      split at h
      · cases h
      · rename_i m hdepth
        have hroom := exists_shortenBranches_iff.mp ⟨c, hshorten⟩
        rw [span_compactAll hmap] at hroom
        exact ⟨⟨s, hs⟩, hroom, m,
          ((hshort.trans hsame).computeMaxStack_iff hfits hready'.fitting).mp hdepth⟩
  · rintro ⟨⟨s, hs⟩, hroom, m, hdepth⟩
    obtain ⟨hready, hsame⟩ := shortenable_compactAll hs
    obtain ⟨hmap, hfits, -⟩ := expand_eq_ok hs
    rw [← span_compactAll hmap] at hroom
    obtain ⟨c, hshorten⟩ := exists_shortenBranches maxRounds hroom
    obtain ⟨hready', -, hshort⟩ := shortenBranches_eq_ok hready hshorten
    have hdepth' := ((hshort.trans hsame).computeMaxStack_iff hfits hready'.fitting).mpr hdepth
    rw [compact_of_expand hs, hshorten]
    simp only [hdepth']
    exact ⟨_, rfl⟩

theorem computeMaxStack_compact (h : compact refs returnType b = .ok () b') (m : UInt16) :
    b'.computeMaxStack refs returnType = .ok m ↔ b.computeMaxStack refs returnType = .ok m := by
  obtain ⟨s, hs⟩ := exists_expand_of_compact h
  obtain ⟨-, hfits, -⟩ := expand_eq_ok hs
  obtain ⟨hverified, hsame⟩ := compact_eq_ok h
  exact hsame.computeMaxStack_iff hfits fun id i hi =>
    Instruction.checkOperand_eq_ok.mp (hverified.operands id i hi)

end MethodBody

end CilWeave
