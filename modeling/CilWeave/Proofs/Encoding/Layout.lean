import CilWeave.Proofs.Encoding.Recoding

/-
Where the instructions of a body lie, and how far its branches reach.

`MethodBody.span` adds up the sizes of instructions; the span of what stands before an
instruction is where it starts. The distance a branch has to go is a sum of sizes too,
so it only gets closer to zero when instructions get smaller (`distance_between`). That
is why the rounds of shortening never put a branch out of reach again, and why
`MethodBody.IsVerified` holds of every body that was compacted (`compact_eq_ok`).
-/

namespace CilWeave

namespace InstructionList

variable {l l' : InstructionList}

/-- The handles in front of one of them. -/
def before (l : InstructionList) (id : InstrId) : List InstrId := l.ids.takeWhile (· != id)

def sizeOf (l : InstructionList) (id : InstrId) : Nat :=
  match l.get? id with
  | some i => i.size.toNat
  | none => 0

def span (l : InstructionList) : List InstrId → Nat
  | [] => 0
  | id :: rest => l.sizeOf id + l.span rest

/-- How far it is from the end of one instruction to the start of another. -/
def distance (l : InstructionList) (id target : InstrId) : Int :=
  (l.span (l.before target) : Int) - (l.span (l.before id) + l.sizeOf id : Nat)

theorem sizeOf_eq {id : InstrId} {i : Instruction} (h : l.get? id = some i) :
    l.sizeOf id = i.size.toNat := by
  unfold sizeOf; rw [h]

theorem span_append (xs ys : List InstrId) : l.span (xs ++ ys) = l.span xs + l.span ys := by
  induction xs with
  | nil => simp [span]
  | cons x rest ih => simp only [List.cons_append, span, ih]; omega

theorem span_le (h : ∀ id, l'.sizeOf id ≤ l.sizeOf id) (ids : List InstrId) :
    l'.span ids ≤ l.span ids := by
  induction ids with
  | nil => exact Nat.le_refl _
  | cons id rest ih => exact Nat.add_le_add (h id) ih

theorem span_congr (h : ∀ id, l'.sizeOf id = l.sizeOf id) (ids : List InstrId) :
    l'.span ids = l.span ids := by
  induction ids with
  | nil => rfl
  | cons id rest ih => simp only [span, h, ih]

/-- Of two handles of a list, one stands before the other unless they are the same. -/
theorem takeWhile_cases {id t : InstrId} : ∀ {ids : List InstrId}, id ∈ ids → t ∈ ids →
    t = id ∨ (∃ mid, ids.takeWhile (· != t) = ids.takeWhile (· != id) ++ id :: mid) ∨
      ∃ mid, ids.takeWhile (· != id) = ids.takeWhile (· != t) ++ t :: mid
  | x :: rest, hid, ht => by
    by_cases hx : x = id
    · subst hx
      by_cases hxt : x = t
      · exact .inl hxt.symm
      · exact .inr (.inl ⟨rest.takeWhile (· != t), by simp [hxt]⟩)
    · have hid' : id ∈ rest := (List.mem_cons.mp hid).resolve_left (Ne.symm hx)
      by_cases hxt : x = t
      · subst hxt
        exact .inr (.inr ⟨rest.takeWhile (· != id), by simp [hx]⟩)
      · have ht' : t ∈ rest := (List.mem_cons.mp ht).resolve_left (Ne.symm hxt)
        rcases takeWhile_cases hid' ht' with h | ⟨mid, h⟩ | ⟨mid, h⟩
        · exact .inl h
        · exact .inr (.inl ⟨mid, by simp [hx, hxt, h]⟩)
        · exact .inr (.inr ⟨mid, by simp [hx, hxt, h]⟩)

/-- Where instructions get smaller, every distance gets closer to zero. -/
theorem distance_between (hids : l'.ids = l.ids) (hle : ∀ id, l'.sizeOf id ≤ l.sizeOf id)
    {id t : InstrId} (hid : l.contains id = true) (ht : l.contains t = true) :
    0 ≤ l'.distance id t ∧ l'.distance id t ≤ l.distance id t ∨
      l.distance id t ≤ l'.distance id t ∧ l'.distance id t ≤ 0 := by
  have hbefore : ∀ x, l'.before x = l.before x := by
    intro x
    unfold before
    rw [hids]
  have hsize := hle id
  simp only [distance, hbefore]
  rcases takeWhile_cases (mem_ids.mpr hid) (mem_ids.mpr ht) with rfl | ⟨mid, hmid⟩ | ⟨mid, hmid⟩
  · right; omega
  · have hspan := span_le hle mid
    have heq : l.before t = l.before id ++ id :: mid := hmid
    simp only [heq, span_append, span]
    left; omega
  · have hspan := span_le hle mid
    have htsize := hle t
    have heq : l.before id = l.before t ++ t :: mid := hmid
    simp only [heq, span_append, span]
    right; omega

theorem reaches_of_smaller (hids : l'.ids = l.ids) (hle : ∀ id, l'.sizeOf id ≤ l.sizeOf id)
    {id t : InstrId} (hid : l.contains id = true) (ht : l.contains t = true)
    (hd : -128 ≤ l.distance id t ∧ l.distance id t ≤ 127) :
    -128 ≤ l'.distance id t ∧ l'.distance id t ≤ 127 := by
  rcases distance_between hids hle hid ht with h | h <;> omega

end InstructionList

namespace MethodBody

variable {b b' : MethodBody}

theorem Mapped.sizeOf_le {f : InstrId → Instruction → Instruction} (h : Mapped f b b')
    (hf : ∀ id i, (f id i).size ≤ i.size) (id : InstrId) :
    b'.code.sizeOf id ≤ b.code.sizeOf id := by
  unfold InstructionList.sizeOf
  rw [h.get?]
  cases b.code.get? id with
  | none => exact Nat.le_refl _
  | some i => exact UInt32.le_iff_toNat_le.mp (hf id i)

theorem Mapped.sizeOf_eq {f : InstrId → Instruction → Instruction} (h : Mapped f b b')
    (hf : ∀ id i, (f id i).size = i.size) (id : InstrId) :
    b'.code.sizeOf id = b.code.sizeOf id := by
  unfold InstructionList.sizeOf
  rw [h.get?]
  cases b.code.get? id with
  | none => rfl
  | some i => exact congrArg UInt32.toNat (hf id i)

/-! ## Reach -/

/-- Every short branch has a target that it reaches. -/
def InReach (b : MethodBody) : Prop :=
  ∀ id i, b.code.get? id = some i → i.op.operandKind = .shortBranch →
    ∃ t, i.operand = .target t ∧ b.code.contains t = true ∧
      -128 ≤ b.code.distance id t ∧ b.code.distance id t ≤ 127

/-! ## Laying out -/

/-- Every instruction starts where those before it end. -/
structure LaidOut (b : MethodBody) : Prop where
  offset : ∀ id i, b.code.get? id = some i → i.offset.toNat = b.code.span (b.code.before id)
  codeSize : b.codeSize.toNat = b.code.span b.code.ids

theorem mapped_offset_cons {offset : InstrId → UInt32} {id : InstrId} {rest : List InstrId}
    {start : UInt32} {b'' : MethodBody} (hid : id ∉ rest)
    (h : Mapped (fun x i => if x = id then { i with offset := start } else i) b b')
    (h' : Mapped (fun x i => if x ∈ rest then { i with offset := offset x } else i) b' b'') :
    Mapped (fun x i => if x ∈ id :: rest then
      { i with offset := if x = id then start else offset x } else i) b b'' := by
  refine (h.trans h').congr ?_
  intro x i _
  by_cases hx : x = id
  · subst hx
    simp only [if_true, List.mem_cons, true_or, if_neg hid]
  · simp only [List.mem_cons, hx, false_or, if_false]

theorem layOutFrom_eq_ok : ∀ {ids : List InstrId} {start n : UInt32} {b b' : MethodBody},
    ids.Nodup → (∀ id ∈ ids, b.code.contains id = true) → layOutFrom ids start b = .ok n b' →
    ∃ offset : InstrId → UInt32,
      Mapped (fun x i => if x ∈ ids then { i with offset := offset x } else i) b b' ∧
        b'.codeSize.toNat = start.toNat + b.code.span ids ∧
        ∀ id ∈ ids, (offset id).toNat = start.toNat + b.code.span (ids.takeWhile (· != id))
  | [], start, _, b, b', _, _, h => by
    cases h
    refine ⟨fun _ => 0, ⟨rfl, rfl, rfl, rfl, fun id => ?_⟩, rfl, by simp⟩
    cases b.code.get? id <;> rfl
  | id :: rest, start, n, b, b', hnodup, hin, h => by
    obtain ⟨hid, hrest⟩ := List.nodup_cons.mp hnodup
    obtain ⟨i, hi⟩ := InstructionList.contains_iff.mp (hin id (by simp))
    have hone := mapped_modifyAt b id fun i => { i with offset := start }
    -- An offset does not change what an instruction takes up.
    have hsizes := hone.sizeOf_eq fun x i => by split <;> rfl
    have hspans := InstructionList.span_congr hsizes
    unfold layOutFrom at h
    simp only [hi] at h
    split at h
    · rename_i hfits
      have hin' : ∀ x ∈ rest,
          (b.modifyAt id fun i => { i with offset := start }).code.contains x = true := by
        intro x hx
        rw [hone.contains_eq]
        exact hin x (List.mem_cons_of_mem id hx)
      obtain ⟨offset, hmap, hcode, hoffset⟩ := layOutFrom_eq_ok hrest hin' h
      have hstart : (start + i.size).toNat = start.toNat + i.size.toNat :=
        (UInt32.toNat_add ..).trans (Nat.mod_eq_of_lt hfits)
      refine ⟨_, mapped_offset_cons hid hone hmap, ?_, ?_⟩
      · rw [hcode, hstart, hspans]
        simp only [InstructionList.span, InstructionList.sizeOf_eq hi]
        omega
      · intro x hx
        by_cases hxid : x = id
        · subst hxid
          simp [InstructionList.span]
        · have hx' : x ∈ rest := (List.mem_cons.mp hx).resolve_left hxid
          have hne : (id != x) = true := by simp [Ne.symm hxid]
          simp only [if_neg hxid]
          rw [hoffset x hx', hstart, hspans, List.takeWhile_cons, if_pos hne]
          simp only [InstructionList.span, InstructionList.sizeOf_eq hi]
          omega
    · cases h

theorem layOut_eq_ok {n : UInt32} (h : layOut b = .ok n b') :
    b'.LaidOut ∧ ∃ offset : InstrId → UInt32,
      Mapped (fun x i => { i with offset := offset x }) b b' := by
  obtain ⟨offset, hmap, hcode, hoffset⟩ :=
    layOutFrom_eq_ok b.code.nodup_ids (fun id hid => InstructionList.mem_ids.mp hid) h
  have hmap' : Mapped (fun x i => { i with offset := offset x }) b b' := by
    refine hmap.congr ?_
    intro id i hi
    rw [if_pos (InstructionList.mem_ids_of_get? hi)]
  have hspans := InstructionList.span_congr (hmap'.sizeOf_eq fun _ _ => rfl)
  refine ⟨⟨?_, ?_⟩, offset, hmap'⟩
  · intro id i' hi'
    obtain ⟨i, hi, rfl⟩ := hmap'.of_get? hi'
    rw [hspans]
    unfold InstructionList.before
    rw [hmap'.ids]
    simpa using hoffset id (InstructionList.mem_ids_of_get? hi)
  · rw [hspans, hmap'.ids, hcode]
    simp

theorem LaidOut.displacement_eq (h : b.LaidOut) {id t : InstrId} {i target : Instruction}
    (hi : b.code.get? id = some i) (ht : b.code.get? t = some target) :
    displacement i target = b.code.distance id t := by
  unfold displacement InstructionList.distance
  rw [h.offset id i hi, h.offset t target ht, InstructionList.sizeOf_eq hi]

/-! ## Shortening branches -/

/-- What holds of a body whenever its branches are about to be shortened. -/
structure Shortenable (b : MethodBody) : Prop where
  fitting : b.Fitting
  valid : b.Valid
  inReach : b.InReach

theorem Shortenable.layOut {n : UInt32} (hb : b.Shortenable) (h : layOut b = .ok n b') :
    b'.Shortenable := by
  obtain ⟨-, offset, hmap⟩ := layOut_eq_ok h
  have hsizes := hmap.sizeOf_eq fun _ _ => rfl
  refine ⟨hmap.fitting hb.fitting fun _ _ hi => hi, hmap.valid hb.valid (fun _ _ => rfl)
    (fun _ _ _ hop => hop), ?_⟩
  intro id i' hi' hkind
  obtain ⟨i, hi, rfl⟩ := hmap.of_get? hi'
  obtain ⟨t, hop, ht, hd⟩ := hb.inReach id i hi hkind
  refine ⟨t, hop, (hmap.contains_eq t).trans ht, ?_⟩
  exact InstructionList.reaches_of_smaller hmap.ids (fun x => Nat.le_of_eq (hsizes x))
    (InstructionList.contains_of_get? hi) ht hd

theorem mem_shrinkable {id : InstrId} : id ∈ b.shrinkable ↔
    ∃ i, b.code.get? id = some i ∧ b.isShrinkable i = true := by
  unfold shrinkable
  rw [List.mem_filterMap]
  constructor
  · rintro ⟨⟨x, i⟩, hmem, h⟩
    simp only at h
    split at h
    · cases h
      exact ⟨i, InstructionList.mem_entries.mp hmem, by assumption⟩
    · cases h
  · rintro ⟨i, hi, h⟩
    exact ⟨(id, i), InstructionList.mem_entries.mpr hi, by simp [h]⟩

theorem nodup_shrinkable (b : MethodBody) : b.shrinkable.Nodup := by
  have hfst : b.shrinkable = (b.code.entries.filter fun e => b.isShrinkable e.2).map Prod.fst := by
    unfold shrinkable
    induction b.code.entries with
    | nil => rfl
    | cons e rest ih =>
      obtain ⟨id, i⟩ := e
      by_cases h : b.isShrinkable i = true <;> simp [h, ih]
  rw [hfst]
  have hsub : ((b.code.entries.filter fun e => b.isShrinkable e.2).map Prod.fst).Sublist
      (b.code.entries.map Prod.fst) := List.filter_sublist.map _
  rw [InstructionList.map_fst_entries] at hsub
  exact hsub.nodup b.code.nodup_ids

theorem reaches_of_isShrinkable {id : InstrId} {i : Instruction} (hlaid : b.LaidOut)
    (hi : b.code.get? id = some i) (h : b.isShrinkable i = true) :
    ∃ t, i.operand = .target t ∧ b.code.contains t = true ∧
      -128 ≤ b.code.distance id t ∧ b.code.distance id t ≤ 127 := by
  unfold isShrinkable at h
  rw [Bool.and_eq_true] at h
  obtain ⟨-, h⟩ := h
  split at h
  · rename_i t hop
    split at h
    · rename_i target ht
      simp only [decide_eq_true_eq, hlaid.displacement_eq hi ht] at h
      exact ⟨t, hop, InstructionList.contains_of_get? ht, h.1, h.2⟩
    · cases h
  · cases h

def shortenAll (b : MethodBody) : MethodBody :=
  b.shrinkable.foldl (fun b id => b.modifyAt id shortened) b

theorem mapped_shortenAll (b : MethodBody) :
    Mapped (fun x i => if x ∈ b.shrinkable then shortened i else i) b b.shortenAll :=
  mapped_foldl_modifyAt shortened (nodup_shrinkable b)

theorem Shortenable.shortenAll (hb : b.Shortenable) (hlaid : b.LaidOut) :
    b.shortenAll.Shortenable := by
  have hmap := mapped_shortenAll b
  have hle := hmap.sizeOf_le fun x i => by
    split
    · exact Instruction.size_shortened_le i
    · exact UInt32.le_refl _
  refine ⟨hmap.fitting hb.fitting ?_, hmap.valid hb.valid ?_ ?_, ?_⟩
  · intro x i hi
    split
    · exact Instruction.fits_shortened hi
    · exact hi
  · intro x i
    split
    · exact congrArg Operand.targets (Instruction.operand_shortened i)
    · rfl
  · intro x i index hop
    split at hop
    · exact Instruction.operand_shortened i ▸ hop
    · exact hop
  -- A short branch was short before, or is short now; either way it reached its target,
  -- and no distance has grown.
  · intro id i' hi' hkind
    obtain ⟨i, hi, rfl⟩ := hmap.of_get? hi'
    have hid := InstructionList.contains_of_get? hi
    have hreach : ∃ t, i.operand = .target t ∧ b.code.contains t = true ∧
        -128 ≤ b.code.distance id t ∧ b.code.distance id t ≤ 127 := by
      by_cases hmem : id ∈ b.shrinkable
      · obtain ⟨j, hj, hshrink⟩ := mem_shrinkable.mp hmem
        rw [hi] at hj
        cases hj
        exact reaches_of_isShrinkable hlaid hi hshrink
      · rw [if_neg hmem] at hkind
        exact hb.inReach id i hi hkind
    obtain ⟨t, hop, ht, hd⟩ := hreach
    refine ⟨t, ?_, (hmap.contains_eq t).trans ht,
      InstructionList.reaches_of_smaller hmap.ids hle hid ht hd⟩
    split
    · exact (Instruction.operand_shortened i).trans hop
    · exact hop

/-- However many rounds it takes, the branches that were shortened reach their targets in
the layout there is at the end. -/
theorem shortenBranches_eq_ok : ∀ {rounds : Nat} {b b' : MethodBody}, b.Shortenable →
    shortenBranches rounds b = .ok () b' → b'.Shortenable ∧ b'.LaidOut ∧ b'.Rephrases b
  | 0, b, b', hb, h => by
    unfold shortenBranches at h
    cases hlay : layOut b with
    | error e s => rw [hlay] at h; cases h
    | ok n s =>
      rw [hlay] at h
      cases h
      obtain ⟨hlaid, offset, hmap⟩ := layOut_eq_ok hlay
      exact ⟨hb.layOut hlay, hlaid, hmap.rephrases fun id i => i.saysSame_offset (offset id)⟩
  | rounds + 1, b, b', hb, h => by
    unfold shortenBranches at h
    cases hlay : layOut b with
    | error e s => rw [hlay] at h; cases h
    | ok n s =>
      rw [hlay] at h
      obtain ⟨hlaid, offset, hmap⟩ := layOut_eq_ok hlay
      have hsame : s.Rephrases b := hmap.rephrases fun id i => i.saysSame_offset (offset id)
      simp only at h
      split at h
      · cases h
        exact ⟨hb.layOut hlay, hlaid, hsame⟩
      · obtain ⟨hb', hlaid', hsame'⟩ :=
          shortenBranches_eq_ok ((hb.layOut hlay).shortenAll hlaid) h
        have hround : s.shortenAll.Rephrases s := by
          refine (mapped_shortenAll s).rephrases fun id i => ?_
          split
          · exact i.saysSame_shortened
          · exact .refl i
        exact ⟨hb', hlaid', hsame'.trans (hround.trans hsame)⟩

/-! ## Compacting -/

/-- A body that is fit to be kept: every operand fits, everything referred to is there, the
stack is known with its greatest depth, every instruction has its offset, and short
branches reach their targets. -/
structure IsVerified (b : MethodBody) (refs : ReferenceTable) (returnType : TypeSig) : Prop where
  operands : ∀ id i, b.code.get? id = some i → i.checkOperand = .ok ()
  validate : b.validate = .ok ()
  maxStack : b.computeMaxStack refs returnType = .ok b.maxStack
  offset : ∀ id i, b.code.get? id = some i → i.offset.toNat = b.code.span (b.code.before id)
  codeSize : b.codeSize.toNat = b.code.span b.code.ids
  shortBranch : ∀ id i, b.code.get? id = some i → i.op.operandKind = .shortBranch →
    ∃ t target, i.operand = .target t ∧ b.code.get? t = some target ∧
      -128 ≤ displacement i target ∧ displacement i target ≤ 127

theorem Shortenable.compacted (hmap : Mapped (fun _ i => i.expanded.compacted) b b')
    (hfits : b.Fitting) (hvalid : b'.Valid) : b'.Shortenable := by
  refine ⟨hmap.fitting hfits fun _ i hi => ?_, hvalid, ?_⟩
  · exact Instruction.fits_compacted (Instruction.fits_expanded hi)
  · intro id i' hi' hkind
    obtain ⟨i, -, rfl⟩ := hmap.of_get? hi'
    exact absurd hkind (Instruction.operandKind_compacted i.operandKind_expanded)

/-- Compacting shortens the branches of the code in its smallest form, and then measures the
stack. -/
theorem compact_cases {refs : ReferenceTable} {returnType : TypeSig}
    (h : compact refs returnType b = .ok () b') :
    ∃ s s' m, s.Shortenable ∧ s.Rephrases b ∧ shortenBranches maxRounds s = .ok () s' ∧
      s'.computeMaxStack refs returnType = .ok m ∧ b' = { s' with maxStack := m } := by
  unfold compact at h
  cases hexpand : expand b with
  | error e s => rw [hexpand] at h; cases h
  | ok u s =>
    rw [hexpand] at h
    obtain ⟨hexpanded, hfits, hvalid⟩ := expand_eq_ok hexpand
    -- The two changes of form are one, from the instruction as it was to the compacted one.
    have hcompacted := (mapped_foldl_modifyAt Instruction.compacted s.code.nodup_ids).congr
      fun id i (hi : s.code.get? id = some i) => if_pos (InstructionList.mem_ids_of_get? hi)
    have hvalid' := hcompacted.valid hvalid (fun _ i => i.targets_compacted)
      (fun _ _ _ => Instruction.local_of_compacted)
    have hboth := hexpanded.trans hcompacted
    have hsame := hboth.rephrases fun _ i =>
      i.expanded.saysSame_compacted.trans i.saysSame_expanded
    simp only at h
    split at h
    · cases h
    · rename_i s' hshorten
      split at h
      · cases h
      · rename_i m hdepth
        cases h
        exact ⟨_, s', m, Shortenable.compacted hboth hfits hvalid', hsame, hshorten, hdepth, rfl⟩

/-- A body that was compacted is verified, and it says what it said before. -/
theorem compact_eq_ok {refs : ReferenceTable} {returnType : TypeSig}
    (h : compact refs returnType b = .ok () b') :
    b'.IsVerified refs returnType ∧ b'.Rephrases b := by
  obtain ⟨s, s', m, hready, hsame, hshorten, hdepth, rfl⟩ := compact_cases h
  obtain ⟨hready', hlaid, hshort⟩ := shortenBranches_eq_ok hready hshorten
  have hsame' := hshort.trans hsame
  refine ⟨⟨?_, validate_eq_ok.mpr ⟨hready'.valid.1, hready'.valid.2, hready'.valid.3⟩,
    hdepth, hlaid.offset, hlaid.codeSize, ?_⟩,
    ⟨hsame'.ids, hsame'.slots, hsame'.locals, hsame'.handlers, hsame'.same⟩⟩
  · intro id i hi
    exact Instruction.checkOperand_eq_ok.mpr (hready'.fitting id i hi)
  · intro id i hi hkind
    obtain ⟨t, hop, ht, hd⟩ := hready'.inReach id i hi hkind
    obtain ⟨target, htarget⟩ := InstructionList.contains_iff.mp ht
    refine ⟨t, target, hop, htarget, ?_⟩
    rw [hlaid.displacement_eq hi htarget]
    exact hd

end MethodBody

end CilWeave
