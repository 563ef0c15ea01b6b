import Mathlib.Data.Finset.Card
import Mathlib.Logic.Function.Iterate
import CilWeave.Proofs.Encoding.Smallest
import CilWeave.Proofs.InstructionList.Sequence

/-
How far the shortening of branches gets.

A branch that gets its short form can bring others into reach, so which branches are short is
a matter of rounds: `MethodBody.nextShort` says, from the sizes of the instructions alone,
which branches reach their targets once some of them are short, and `MethodBody.shortAfter`
repeats that. Compaction is `maxRounds` of these rounds (`Spells.shortenBranches`).

So a compacted body is as short as can be exactly if one more round would change nothing, as
it never does in a body of at most `maxRounds` branches (`shortest_iff_settled`). But each round
may do no more than bring the branch in front of the last one into reach, so there are bodies
that need any number of rounds (`shortAfter_cascade`), and one that needs more than there are
(`not_all_shortest`).
-/

namespace CilWeave

theorem OpCode.shortBranch?_of_shortBranch? {long short : OpCode}
    (h : long.shortBranch? = some short) : short.shortBranch? = none := by
  unfold shortBranch? at h
  split at h <;> cases h <;> rfl

namespace MethodBody

variable {b s s' : MethodBody} {short : InstrId → Bool} {id t : InstrId} {i : Instruction}

/-! ## Rounds of sizes -/

/-- No long branch reaches its target in its short form as well, as it is laid out. -/
def IsShortest (b : MethodBody) : Prop :=
  ∀ id i t target, b.code.get? id = some i → i.op.shortBranch?.isSome = true →
    i.operand = .target t → b.code.get? t = some target →
    ¬ (-128 ≤ displacement i target ∧ displacement i target ≤ 127)

/-- An instruction in its smallest form, where a branch takes its short form or its long one. -/
def formOf (short : Bool) (i : Instruction) : Instruction :=
  if short then shortened i.expanded.compacted else i.expanded.compacted

/-- What the instruction of a handle takes if the branches in `short` are short. -/
def sizeWith (b : MethodBody) (short : InstrId → Bool) (id : InstrId) : Nat :=
  match b.code.get? id with
  | some i => (formOf (short id) i).size.toNat
  | none => 0

/-- Where the instruction of a handle starts if the branches in `short` are short. -/
def offsetWith (b : MethodBody) (short : InstrId → Bool) (id : InstrId) : Nat :=
  ((b.code.before id).map (b.sizeWith short)).sum

/-- How far it is from the end of one instruction to another if the branches in `short` are
short. -/
def distanceWith (b : MethodBody) (short : InstrId → Bool) (id t : InstrId) : Int :=
  (b.offsetWith short t : Int) - (b.offsetWith short id + b.sizeWith short id : Nat)

/-- The branches that are short after one more round: those that were, and those that reach
their targets now. -/
def nextShort (b : MethodBody) (short : InstrId → Bool) (id : InstrId) : Bool :=
  short id ||
    match b.code.get? id with
    | some i =>
      i.expanded.compacted.op.shortBranch?.isSome &&
        match i.expanded.compacted.operand with
        | .target t => b.code.contains t &&
          decide (-128 ≤ b.distanceWith short id t ∧ b.distanceWith short id t ≤ 127)
        | _ => false
    | none => false

/-- The branches that are short after some rounds; at first all are long. -/
def shortAfter (b : MethodBody) (rounds : Nat) : InstrId → Bool :=
  b.nextShort^[rounds] fun _ => false

theorem shortAfter_succ (b : MethodBody) (n : Nat) :
    b.shortAfter (n + 1) = b.nextShort (b.shortAfter n) :=
  Function.iterate_succ_apply' b.nextShort n _

/-! ## One round -/

/-- `s` is `b` in its smallest form, laid out somehow, with the branches in `short` short. -/
def Spells (b : MethodBody) (short : InstrId → Bool) (s : MethodBody) : Prop :=
  ∃ offset : InstrId → UInt32,
    Mapped (fun id i => { formOf (short id) i with offset := offset id }) b s

theorem shortBranch?_formOf_true (i : Instruction) : (formOf true i).op.shortBranch? = none := by
  simp only [formOf, if_true, shortened]
  split
  · rename_i op hop
    exact OpCode.shortBranch?_of_shortBranch? hop
  · assumption

theorem isShrinkable_of_displacement {target : Instruction}
    (hbranch : i.op.shortBranch?.isSome = true) (hop : i.operand = .target t)
    (htarget : b.code.get? t = some target)
    (hreach : -128 ≤ displacement i target ∧ displacement i target ≤ 127) :
    b.isShrinkable i = true := by
  unfold isShrinkable
  rw [hbranch, Bool.true_and, hop]
  simp only [htarget]
  exact decide_eq_true hreach

namespace Spells

theorem size_eq (h : Spells b short s) (id : InstrId) :
    s.code.sizeOf id = b.sizeWith short id := by
  obtain ⟨offset, hmap⟩ := h
  unfold InstructionList.sizeOf sizeWith
  rw [hmap.get?]
  cases b.code.get? id <;> rfl

theorem span_before (h : Spells b short s) (id : InstrId) :
    s.code.span (s.code.before id) = b.offsetWith short id := by
  have hbefore : s.code.before id = b.code.before id := by
    obtain ⟨offset, hmap⟩ := h
    unfold InstructionList.before
    rw [hmap.ids]
  unfold offsetWith
  rw [hbefore]
  generalize b.code.before id = ids
  induction ids with
  | nil => rfl
  | cons x rest ih => rw [InstructionList.span, h.size_eq, ih, List.map_cons, List.sum_cons]

theorem distance_eq (h : Spells b short s) (id t : InstrId) :
    s.code.distance id t = b.distanceWith short id t := by
  unfold InstructionList.distance distanceWith
  rw [h.span_before, h.span_before, h.size_eq]

theorem layOut {n : UInt32} (h : Spells b short s) (hlay : layOut s = .ok n s') :
    Spells b short s' := by
  obtain ⟨offset, hmap⟩ := h
  obtain ⟨-, offset', hmap'⟩ := layOut_eq_ok hlay
  exact ⟨offset', hmap.trans hmap'⟩

/-- The branches that can take their short form are those that reach their targets now. -/
theorem mem_shrinkable (h : Spells b short s) (hlaid : s.LaidOut) :
    id ∈ s.shrinkable ↔ short id = false ∧ b.nextShort short id = true := by
  have hdistance := h.distance_eq
  obtain ⟨offset, hmap⟩ := h
  rw [MethodBody.mem_shrinkable]
  unfold nextShort
  constructor
  · rintro ⟨j, hj, hshrink⟩
    obtain ⟨t, hop, ht, hreach⟩ := reaches_of_isShrinkable hlaid hj hshrink
    obtain ⟨i, hi, rfl⟩ := hmap.of_get? hj
    have hbranch : (formOf (short id) i).op.shortBranch?.isSome = true :=
      (Bool.and_eq_true_iff.mp hshrink).1
    cases hshort : short id with
    | true =>
      rw [hshort, shortBranch?_formOf_true] at hbranch
      cases hbranch
    | false =>
      rw [hshort] at hbranch hop
      have hop : i.expanded.compacted.operand = .target t := hop
      have hbranch : i.expanded.compacted.op.shortBranch?.isSome = true := hbranch
      rw [hdistance] at hreach
      rw [hmap.contains_eq] at ht
      simp only [hi, hop, hbranch, ht, hreach, Bool.and_true, decide_true, Bool.or_true, and_self]
  · rintro ⟨hshort, hnext⟩
    rw [hshort, Bool.false_or] at hnext
    cases hi : b.code.get? id with
    | none => simp only [hi, Bool.false_eq_true] at hnext
    | some i =>
      simp only [hi, Bool.and_eq_true] at hnext
      obtain ⟨hbranch, hnext⟩ := hnext
      split at hnext
      · rename_i t hop
        rw [Bool.and_eq_true, decide_eq_true_eq, ← hdistance] at hnext
        obtain ⟨ht, hreach⟩ := hnext
        rw [← hmap.contains_eq] at ht
        obtain ⟨target, htarget⟩ := InstructionList.contains_iff.mp ht
        have hj := hmap.get?_of hi
        rw [← hlaid.displacement_eq hj htarget] at hreach
        refine ⟨_, hj, isShrinkable_of_displacement ?_ ?_ htarget hreach⟩
        · simp only [hshort, formOf, Bool.false_eq_true, if_false, hbranch]
        · simp only [hshort, formOf, Bool.false_eq_true, if_false, hop]
      · cases hnext

/-- A round makes the branches short that reach their targets. -/
theorem shortenAll (h : Spells b short s) (hlaid : s.LaidOut) :
    Spells b (b.nextShort short) s.shortenAll := by
  have hmem (id : InstrId) : id ∈ s.shrinkable ↔ short id = false ∧ b.nextShort short id = true :=
    h.mem_shrinkable hlaid
  obtain ⟨offset, hmap⟩ := h
  refine ⟨offset, (hmap.trans (mapped_shortenAll s)).congr fun id i _ => ?_⟩
  by_cases hshrink : id ∈ s.shrinkable
  · obtain ⟨hshort, hnext⟩ := (hmem id).mp hshrink
    simp only [if_pos hshrink, hshort, hnext, formOf, if_true, Bool.false_eq_true, if_false]
    unfold shortened
    cases i.expanded.compacted.op.shortBranch? <;> rfl
  · have hnext : b.nextShort short id = short id := by
      cases hshort : short id with
      | true => simp only [nextShort, hshort, Bool.true_or]
      | false => exact Bool.eq_false_iff.mpr fun hnext => hshrink ((hmem id).mpr ⟨hshort, hnext⟩)
    simp only [if_neg hshrink, hnext]

theorem shrinkable_eq_nil (h : Spells b short s) (hlaid : s.LaidOut) :
    s.shrinkable = [] ↔ b.nextShort short = short := by
  rw [List.eq_nil_iff_forall_not_mem]
  simp only [h.mem_shrinkable hlaid]
  constructor
  · intro hnone
    funext id
    cases hshort : short id with
    | true => simp only [nextShort, hshort, Bool.true_or]
    | false => exact Bool.eq_false_iff.mpr fun hnext => hnone id ⟨hshort, hnext⟩
  · intro heq id hid
    rw [heq, hid.1] at hid
    cases hid.2

/-! ## All rounds -/

/-- The shortening of branches is a number of rounds, or fewer if these change nothing more. -/
theorem shortenBranches : ∀ {rounds : Nat} {short : InstrId → Bool} {s s' : MethodBody},
    Spells b short s → shortenBranches rounds s = .ok () s' →
    Spells b (b.nextShort^[rounds] short) s' ∧ s'.LaidOut
  | 0, short, s, s', hs, h => by
    rw [MethodBody.shortenBranches] at h
    split at h
    · cases h
    · rename_i hlay
      cases h
      exact ⟨hs.layOut hlay, (layOut_eq_ok hlay).1⟩
  | rounds + 1, short, s, s', hs, h => by
    rw [MethodBody.shortenBranches] at h
    split at h
    · cases h
    · rename_i n laid hlay
      have hlaid := (layOut_eq_ok hlay).1
      have hspells := hs.layOut hlay
      split at h
      · rename_i hnone
        cases h
        have hsettled := (hspells.shrinkable_eq_nil hlaid).mp hnone
        rw [Function.iterate_fixed hsettled]
        exact ⟨hspells, hlaid⟩
      · exact (hspells.shortenAll hlaid).shortenBranches h

theorem isShortest_iff (h : Spells b short s) (hlaid : s.LaidOut) :
    s.IsShortest ↔ b.nextShort short = short := by
  rw [← h.shrinkable_eq_nil hlaid, List.eq_nil_iff_forall_not_mem]
  simp only [MethodBody.mem_shrinkable]
  constructor
  · rintro hshortest id ⟨i, hi, hshrink⟩
    obtain ⟨t, hop, ht, hreach⟩ := reaches_of_isShrinkable hlaid hi hshrink
    obtain ⟨target, htarget⟩ := InstructionList.contains_iff.mp ht
    rw [← hlaid.displacement_eq hi htarget] at hreach
    exact hshortest id i t target hi (Bool.and_eq_true_iff.mp hshrink).1 hop htarget hreach
  · intro hnone id i t target hi hbranch hop htarget hreach
    exact hnone id ⟨i, hi, isShrinkable_of_displacement hbranch hop htarget hreach⟩

end Spells

theorem spells_compactAll (h : expand b = .ok () s) : Spells b (fun _ => false) s.compactAll := by
  obtain ⟨hexpanded, -, -⟩ := expand_eq_ok h
  refine ⟨fun id => ((b.code.get? id).map fun i => i.expanded.compacted.offset).getD 0,
    (hexpanded.trans (mapped_compactAll s)).congr fun id i hi => ?_⟩
  simp only [hi, Option.map_some, Option.getD_some, formOf, Bool.false_eq_true, if_false]

theorem spells_of_compact {b' : MethodBody} {refs : ReferenceTable} {returnType : TypeSig}
    (h : compact refs returnType b = .ok () b') :
    Spells b (b.shortAfter maxRounds) b' ∧ b'.LaidOut := by
  obtain ⟨s, hs⟩ := exists_expand_of_compact h
  rw [compact_of_expand hs] at h
  split at h
  · cases h
  · rename_i t hshorten
    split at h
    · cases h
    · cases h
      obtain ⟨⟨offset, hmap⟩, hlaid⟩ := (spells_compactAll hs).shortenBranches hshorten
      exact ⟨⟨offset, hmap.ids, hmap.slots, hmap.locals, hmap.handlers, hmap.get?⟩,
        hlaid.offset, hlaid.codeSize⟩

/-! ## How many rounds there can be -/

def branches (b : MethodBody) : List InstrId :=
  b.code.ids.filter fun id => (b.code.get? id).any fun i =>
    i.expanded.compacted.op.shortBranch?.isSome

/-- Only branches are ever short. -/
theorem mem_branches_of_shortAfter : ∀ {n : Nat}, b.shortAfter n id = true → id ∈ b.branches
  | 0, h => by cases h
  | n + 1, h => by
    rw [shortAfter_succ, nextShort, Bool.or_eq_true] at h
    rcases h with h | h
    · exact mem_branches_of_shortAfter h
    · cases hi : b.code.get? id with
      | none => simp only [hi, Bool.false_eq_true] at h
      | some i =>
        simp only [hi, Bool.and_eq_true] at h
        refine List.mem_filter.mpr ⟨InstructionList.mem_ids_of_get? hi, ?_⟩
        simp only [hi, Option.any_some, h.1]

def shortBranches (b : MethodBody) (n : Nat) : Finset InstrId :=
  b.branches.toFinset.filter fun id => b.shortAfter n id = true

theorem mem_shortBranches {n : Nat} : id ∈ b.shortBranches n ↔ b.shortAfter n id = true := by
  unfold shortBranches
  rw [Finset.mem_filter, List.mem_toFinset]
  exact ⟨And.right, fun h => ⟨mem_branches_of_shortAfter h, h⟩⟩

theorem card_shortBranches_lt {n : Nat}
    (h : b.nextShort (b.shortAfter n) ≠ b.shortAfter n) :
    (b.shortBranches n).card < (b.shortBranches (n + 1)).card := by
  obtain ⟨id, hid⟩ := Function.ne_iff.mp h
  rw [← shortAfter_succ] at hid
  have hmono : ∀ x, b.shortAfter n x = true → b.shortAfter (n + 1) x = true := by
    intro x hx
    rw [shortAfter_succ, nextShort, hx, Bool.true_or]
  refine Finset.card_lt_card (Finset.ssubset_iff_subset_ne.mpr ⟨fun x hx => ?_, fun heq => hid ?_⟩)
  · exact mem_shortBranches.mpr (hmono x (mem_shortBranches.mp hx))
  · rw [Bool.eq_iff_iff, ← mem_shortBranches, ← mem_shortBranches, heq]

/-- Up to the round that changes nothing more, there is a short branch for each round. -/
theorem le_card_or_settled (b : MethodBody) : ∀ n : Nat,
    n ≤ (b.shortBranches n).card ∨ b.nextShort (b.shortAfter n) = b.shortAfter n
  | 0 => .inl (Nat.zero_le _)
  | n + 1 => by
    by_cases hsettled : b.nextShort (b.shortAfter n) = b.shortAfter n
    · exact .inr (by rw [shortAfter_succ, hsettled, hsettled])
    · have hcard := (le_card_or_settled b n).resolve_right hsettled
      exact .inl (Nat.lt_of_le_of_lt hcard (card_shortBranches_lt hsettled))

theorem settled_of_branches_le {n : Nat} (h : b.branches.length ≤ n) :
    b.nextShort (b.shortAfter n) = b.shortAfter n := by
  by_contra hsettled
  have hle : (b.shortBranches (n + 1)).card ≤ b.branches.length :=
    (Finset.card_filter_le _ _).trans (List.toFinset_card_le b.branches)
  have hcard := (le_card_or_settled b n).resolve_right hsettled
  have hlt := card_shortBranches_lt hsettled
  omega

/-! ## What compaction leaves long -/

/-- Compaction makes the branches short that `maxRounds` rounds make short. So no long branch is
left that reaches its target in its short form exactly if another round would change nothing;
with at most `maxRounds` branches none is ever left. -/
theorem shortest_iff_settled (b b' : MethodBody) (refs : ReferenceTable) (returnType : TypeSig)
    (h : compact refs returnType b = .ok () b') :
    (∀ id i, b'.code.get? id = some i →
      (i.op.operandKind = .shortBranch ↔ b.shortAfter maxRounds id = true)) ∧
    (b'.IsShortest ↔ b.nextShort (b.shortAfter maxRounds) = b.shortAfter maxRounds) ∧
    (b.branches.length ≤ maxRounds → b'.IsShortest) := by
  obtain ⟨hspells, hlaid⟩ := spells_of_compact h
  have hiff := hspells.isShortest_iff hlaid
  refine ⟨?_, hiff, fun hle => hiff.mpr (settled_of_branches_le hle)⟩
  intro id i' hi'
  obtain ⟨offset, hmap⟩ := hspells
  obtain ⟨i, hi, rfl⟩ := hmap.of_get? hi'
  cases hshort : b.shortAfter maxRounds id with
  | false =>
    simp only [formOf, Bool.false_eq_true, if_false, iff_false]
    exact Instruction.operandKind_compacted i.operandKind_expanded
  | true =>
    have hbranch := (List.mem_filter.mp (mem_branches_of_shortAfter hshort)).2
    simp only [hi, Option.any_some] at hbranch
    obtain ⟨op, hop⟩ := Option.isSome_iff_exists.mp hbranch
    simp only [formOf, if_true, iff_true, shortened, hop]
    exact (OpCode.operandKind_of_longBranch? (OpCode.longBranch?_of_shortBranch? hop)).1

/-- A branch over another one, which has to be short first. -/
def overtaking : MethodBody :=
  { MethodBody.empty with
    code := (InstructionList.ofList [.branch .br ⟨3⟩, .branch .br ⟨2⟩,
      .of .switch (.switch (List.replicate 30 ⟨3⟩)), .plain .ret]).toOption.getD .empty }

theorem shortest_iff_settled_overtaking : ∃ b', compact .empty .void overtaking = .ok () b' ∧
    b'.code.instructions.map (fun i => (i.op, i.offset)) =
      [(.brS, 0), (.brS, 2), (.switch, 4), (.ret, 129)] ∧
    overtaking.shortAfter 1 ⟨0⟩ = false ∧ overtaking.shortAfter 2 ⟨0⟩ = true ∧
    b'.IsShortest := by
  obtain ⟨b', h, hcode⟩ : ∃ b', compact .empty .void overtaking = .ok () b' ∧
      b'.code.instructions.map (fun i => (i.op, i.offset)) =
        [(.brS, 0), (.brS, 2), (.switch, 4), (.ret, 129)] := ⟨_, rfl, rfl⟩
  obtain ⟨-, -, hfew⟩ := shortest_iff_settled overtaking b' .empty .void h
  exact ⟨b', h, hcode, by decide +kernel, by decide +kernel, hfew (by decide +kernel)⟩

/-! ## A cascade -/

/-- The position a branch of a cascade leads to. Once the branches that it skips are short, it is
126 or 127 bytes away; with one of them long it is out of reach. -/
def cascadeTarget (count n : Nat) : Nat :=
  if n + 64 ≤ count then n + 64 else 129 + 2 * n - count

/-- The code of a cascade: the branches, and room behind them for the last ones to lead to. -/
def cascadeCode (count : Nat) : List Instruction :=
  (List.range count).map (fun n => .branch .br (.ofSlot (cascadeTarget count n))) ++
    List.replicate 127 (.plain .nop) ++ [.plain .ret]

/-- A row of branches each of which is brought into reach by those behind it. -/
def cascade (count : Nat) : MethodBody :=
  { MethodBody.empty with
    code := (InstructionList.ofList (cascadeCode count)).toOption.getD .empty }

section Cascade

variable {count n k : Nat}

theorem length_cascadeCode (count : Nat) : (cascadeCode count).length = count + 128 := by
  simp [cascadeCode]

theorem getElem?_cascadeCode (count k : Nat) : (cascadeCode count)[k]? =
    if k < count then some (.branch .br (.ofSlot (cascadeTarget count k)))
    else if k < count + 127 then some (.plain .nop)
    else if k < count + 128 then some (.plain .ret) else none := by
  unfold cascadeCode
  rw [List.append_assoc, List.getElem?_append, List.length_map, List.length_range]
  split
  · rename_i hk
    rw [List.getElem?_map, List.getElem?_range hk, Option.map_some]
  · rw [List.getElem?_append, List.length_replicate, List.getElem?_replicate,
      List.getElem?_singleton]
    split_ifs <;> first | rfl | omega

theorem cascadeTarget_lt (h : n < count) : cascadeTarget count n < count + 128 := by
  unfold cascadeTarget
  split <;> omega

variable (hcount : 5 * count + 128 < UInt32.size)
include hcount

theorem entries_cascade : (cascade count).code.entries =
    (cascadeCode count).zipIdx.map fun p => (.ofSlot p.2, p.1) := by
  have hlength : (cascadeCode count).length ≤ UInt32.size := by
    rw [length_cascadeCode]
    omega
  obtain ⟨l, hl, hentries⟩ := InstructionList.exists_ofList hlength
  unfold cascade
  rw [hl]
  exact hentries

theorem ids_cascade : (cascade count).code.ids = (List.range (count + 128)).map .ofSlot := by
  rw [InstructionList.ids_of_zipIdx (entries_cascade hcount), length_cascadeCode]

theorem get?_cascade (hk : k < UInt32.size) :
    (cascade count).code.get? (.ofSlot k) = (cascadeCode count)[k]? :=
  InstructionList.get?_of_zipIdx (entries_cascade hcount)
    (by rw [length_cascadeCode]; omega) hk

theorem contains_cascade (hk : k < count + 128) :
    (cascade count).code.contains (.ofSlot k) = true := by
  rw [← InstructionList.mem_ids, ids_cascade hcount]
  exact List.mem_map_of_mem (List.mem_range.mpr hk)

theorem before_cascade (hk : k < count + 128) :
    (cascade count).code.before (.ofSlot k) = (List.range k).map .ofSlot := by
  have hid : (cascade count).code.ids[k]? = some (.ofSlot k) := by
    rw [ids_cascade hcount, List.getElem?_map, List.getElem?_range hk, Option.map_some]
  rw [InstructionList.before_of_getElem? hid, ids_cascade hcount, ← List.map_take, List.take_range,
    Nat.min_eq_left (Nat.le_of_lt hk)]

/-- The last branches of a cascade, as many as are short after so many rounds. -/
def lastOf (count n : Nat) (id : InstrId) : Bool := decide (count ≤ id.slot + n ∧ id.slot < count)

theorem sizeWith_cascade (hk : k < count + 128) :
    (cascade count).sizeWith (lastOf count n) (.ofSlot k) =
      if k < count then if count ≤ k + n then 2 else 5 else 1 := by
  have hslot : (InstrId.ofSlot k).slot = k := InstrId.slot_ofSlot (by omega)
  unfold sizeWith
  rw [get?_cascade hcount (by omega), getElem?_cascadeCode]
  unfold lastOf
  rw [hslot]
  by_cases hbranch : k < count
  · rw [if_pos hbranch, if_pos hbranch]
    by_cases hlast : count ≤ k + n
    · simp only [hlast, hbranch, and_self, decide_true]
      rfl
    · simp only [hlast, false_and, decide_false]
      rfl
  · rw [if_neg hbranch, if_neg hbranch]
    simp only [hbranch, and_false, decide_false]
    by_cases hnop : k < count + 127
    · rw [if_pos hnop]
      rfl
    · rw [if_neg hnop, if_pos hk]
      rfl

/-- Up to the last branches each takes five bytes, from there on two, and behind them it is a
byte for each instruction. -/
theorem offsetWith_cascade (hn : n ≤ count) (hk : k < count + 128) :
    (cascade count).offsetWith (lastOf count n) (.ofSlot k) =
      5 * min k (count - n) + 2 * (min k count - min k (count - n)) + (k - count) := by
  unfold offsetWith
  rw [before_cascade hcount hk, List.map_map]
  induction k with
  | zero => simp
  | succ k ih =>
    rw [List.range_succ, List.map_append, List.sum_append, ih (by omega), List.map_singleton,
      List.sum_singleton, Function.comp_apply, sizeWith_cascade hcount (by omega)]
    split_ifs <;> omega

theorem distanceWith_cascade {t : Nat} (hn : n ≤ count) (hk : k < count) (ht : t < count + 128) :
    (cascade count).distanceWith (lastOf count n) (.ofSlot k) (.ofSlot t) =
      ((5 * min t (count - n) + 2 * (min t count - min t (count - n)) + (t - count) : Nat) : Int) -
        (5 * min k (count - n) + 2 * (k - min k (count - n)) +
          (if count ≤ k + n then 2 else 5) : Nat) := by
  unfold distanceWith
  rw [offsetWith_cascade hcount hn ht, offsetWith_cascade hcount hn (by omega),
    sizeWith_cascade hcount (by omega), if_pos hk, Nat.min_eq_left (Nat.le_of_lt hk),
    Nat.sub_eq_zero_of_le (Nat.le_of_lt hk), Nat.add_zero]

/-- A round brings one more branch into reach, the one in front of the last ones. -/
theorem nextShort_cascade (hn : n < count) :
    (cascade count).nextShort (lastOf count n) = lastOf count (n + 1) := by
  funext id
  obtain ⟨k, hk, rfl⟩ : ∃ k, k < UInt32.size ∧ id = .ofSlot k :=
    ⟨id.slot, id.slot_lt, id.ofSlot_slot.symm⟩
  unfold nextShort
  rw [get?_cascade hcount hk, getElem?_cascadeCode]
  have hslot : (InstrId.ofSlot k).slot = k := InstrId.slot_ofSlot hk
  by_cases hbranch : k < count
  · have ht := cascadeTarget_lt hbranch
    have hdistance := distanceWith_cascade hcount (Nat.le_of_lt hn) hbranch ht
    rw [if_pos hbranch]
    show (lastOf count n (.ofSlot k) || (true && ((cascade count).code.contains
      (.ofSlot (cascadeTarget count k)) && decide _))) = _
    rw [contains_cascade hcount ht, hdistance, Bool.eq_iff_iff]
    unfold lastOf cascadeTarget
    simp only [hslot, Bool.true_and, Bool.or_eq_true, decide_eq_true_eq]
    split_ifs <;> omega
  · have hnone : ∀ m, lastOf count m (.ofSlot k) = false := by
      intro m
      unfold lastOf
      rw [hslot]
      exact decide_eq_false fun h => hbranch h.2
    rw [if_neg hbranch, hnone, hnone, Bool.false_or]
    split_ifs <;> rfl

/-- However many branches there are, each of them takes a round of its own. -/
theorem shortAfter_cascade : ∀ {n : Nat}, n ≤ count →
    (cascade count).shortAfter n = lastOf count n
  | 0, _ => by
    funext id
    exact (decide_eq_false fun h => absurd h.2 (by omega)).symm
  | n + 1, hn => by
    rw [shortAfter_succ, shortAfter_cascade (Nat.le_of_succ_le hn), nextShort_cascade hcount hn]

theorem not_settled_cascade (hn : n < count) :
    (cascade count).nextShort ((cascade count).shortAfter n) ≠ (cascade count).shortAfter n := by
  rw [shortAfter_cascade hcount (Nat.le_of_lt hn), nextShort_cascade hcount hn]
  intro heq
  have hslot : (InstrId.ofSlot (count - (n + 1))).slot = count - (n + 1) :=
    InstrId.slot_ofSlot (by omega)
  have hat := congrFun heq (.ofSlot (count - (n + 1)))
  unfold lastOf at hat
  rw [hslot, decide_eq_decide] at hat
  omega

/-! ### Compacting a cascade -/

theorem cascade_cases {i : Instruction} (hi : (cascade count).code.get? id = some i) :
    ∃ k, id = .ofSlot k ∧ k < count + 128 ∧
      ((k < count ∧ i = .branch .br (.ofSlot (cascadeTarget count k))) ∨
        (k < count + 127 ∧ i = .plain .nop) ∨ i = .plain .ret) := by
  obtain ⟨k, hk, rfl⟩ : ∃ k, k < UInt32.size ∧ id = .ofSlot k :=
    ⟨id.slot, id.slot_lt, id.ofSlot_slot.symm⟩
  rw [get?_cascade hcount hk, getElem?_cascadeCode] at hi
  refine ⟨k, rfl, ?_⟩
  split_ifs at hi with hbranch hnop hret <;> cases hi
  · exact ⟨by omega, .inl ⟨hbranch, rfl⟩⟩
  · exact ⟨by omega, .inr (.inl ⟨hnop, rfl⟩)⟩
  · exact ⟨hret, .inr (.inr rfl)⟩

theorem valid_cascade : (cascade count).Valid := by
  refine ⟨?_, ?_, nofun⟩
  · intro id i hi t ht
    obtain ⟨k, rfl, hk, ⟨hbranch, rfl⟩ | ⟨-, rfl⟩ | rfl⟩ := cascade_cases hcount hi
    · obtain rfl := List.mem_singleton.mp ht
      exact contains_cascade hcount (cascadeTarget_lt hbranch)
    · cases ht
    · cases ht
  · intro id i index hi hop
    obtain ⟨k, rfl, hk, ⟨-, rfl⟩ | ⟨-, rfl⟩ | rfl⟩ := cascade_cases hcount hi <;> cases hop

theorem expand_cascade : expand (cascade count) = .ok () (cascade count) := by
  refine expand_of_expanded (fun id i hi => ?_) (valid_cascade hcount)
  obtain ⟨k, rfl, hk, ⟨-, rfl⟩ | ⟨-, rfl⟩ | rfl⟩ := cascade_cases hcount hi <;> exact ⟨rfl, rfl⟩

theorem arrives_cascade {depth : Nat} (h : (cascade count).Arrives .empty .void id depth) :
    depth = 0 ∧ (cascade count).code.contains id = true := by
  induction h with
  | entry hentry =>
    cases hentry with
    | first hid =>
      refine ⟨rfl, ?_⟩
      rw [InstructionList.first?_eq] at hid
      exact InstructionList.mem_ids.mp (List.mem_of_getElem? hid)
    | handler hmem => cases hmem
    | filter hmem _ => cases hmem
  | next _ hexecutes _ hnext ih =>
    obtain ⟨hi, pops, pushes, heffect, -, rfl⟩ := hexecutes
    obtain ⟨p, -, hp⟩ := InstructionList.next?_eq_some.mp hnext
    have hin := InstructionList.mem_ids.mp (List.mem_of_getElem? hp)
    obtain ⟨k, rfl, hk, ⟨-, rfl⟩ | ⟨-, rfl⟩ | rfl⟩ := cascade_cases hcount hi <;> cases heffect <;>
      exact ⟨ih.1, hin⟩
  | target _ hexecutes _ htarget ih =>
    obtain ⟨hi, pops, pushes, heffect, -, rfl⟩ := hexecutes
    have hin := (valid_cascade hcount).targets _ _ hi _ htarget
    obtain ⟨k, rfl, hk, ⟨-, rfl⟩ | ⟨-, rfl⟩ | rfl⟩ := cascade_cases hcount hi <;> cases heffect
    · exact ⟨ih.1, hin⟩
    · cases htarget
    · cases htarget

theorem balanced_cascade : (cascade count).Balanced .empty .void := by
  refine ⟨fun id depth h => (arrives_cascade hcount h).2, ?_, ?_, ?_, ?_⟩
  · intro id depth i _ hi
    obtain ⟨k, rfl, hk, ⟨-, rfl⟩ | ⟨-, rfl⟩ | rfl⟩ := cascade_cases hcount hi <;> exact ⟨_, rfl⟩
  · intro id depth i pops pushes _ hi heffect
    obtain ⟨k, rfl, hk, ⟨-, rfl⟩ | ⟨-, rfl⟩ | rfl⟩ := cascade_cases hcount hi <;> cases heffect <;>
      exact Nat.zero_le _
  · intro id depth i _ hi hgoes
    obtain ⟨k, rfl, hk, ⟨-, rfl⟩ | ⟨hnop, rfl⟩ | rfl⟩ := cascade_cases hcount hi
    · cases hgoes
    · have hid : (cascade count).code.ids[k]? = some (.ofSlot k) := by
        rw [ids_cascade hcount, List.getElem?_map, List.getElem?_range hk, Option.map_some]
      refine ⟨.ofSlot (k + 1), ?_⟩
      rw [InstructionList.next?_of_getElem? hid, ids_cascade hcount, List.getElem?_map,
        List.getElem?_range (by omega), Option.map_some]
    · cases hgoes
  · intro id depth depth' h h'
    exact (arrives_cascade hcount h).1.trans (arrives_cascade hcount h').1.symm

theorem roomNeeded_cascade : (cascade count).roomNeeded = 5 * count + 128 := by
  have hbranch : ∀ t, (Instruction.branch .br t).expanded.compacted.size.toNat = 5 :=
    fun _ => rfl
  have hplain : (Instruction.plain .nop).expanded.compacted.size.toNat = 1 ∧
      (Instruction.plain .ret).expanded.compacted.size.toNat = 1 := ⟨rfl, rfl⟩
  unfold roomNeeded
  rw [InstructionList.instructions_of_zipIdx (entries_cascade hcount), cascadeCode]
  simp only [List.map_append, List.map_map, Function.comp_def, hbranch, hplain, List.map_replicate,
    List.map_const', List.length_range, List.map_cons, List.map_nil, List.sum_append,
    List.sum_replicate_nat, List.sum_cons, List.sum_nil]
  omega

theorem exists_compact_cascade : ∃ b', compact .empty .void (cascade count) = .ok () b' := by
  have hne : (cascade count).code.ids ≠ [] := by
    rw [ids_cascade hcount, Ne, List.map_eq_nil_iff, List.range_eq_nil]
    omega
  refine exists_compact_iff.mpr ⟨⟨_, expand_cascade hcount⟩, ?_,
    (exists_computeMaxStack_eq_ok hne).mpr ⟨balanced_cascade hcount, ?_⟩⟩
  · rw [roomNeeded_cascade hcount]
    exact hcount
  · rintro k ⟨id, depth, harrives, rfl | ⟨i, hi, pops, pushes, heffect, -, rfl⟩⟩
    · rw [(arrives_cascade hcount harrives).1]
      decide
    · rw [(arrives_cascade hcount harrives).1]
      obtain ⟨k, rfl, hk, ⟨-, rfl⟩ | ⟨-, rfl⟩ | rfl⟩ := cascade_cases hcount hi <;>
        cases heffect <;> decide

end Cascade

/-- Compaction does not always shorten all branches that can be: a cascade of `maxRounds + 1` of
them keeps its first one long. -/
theorem not_all_shortest : ¬ ∀ (b b' : MethodBody) (refs : ReferenceTable) (returnType : TypeSig),
    compact refs returnType b = .ok () b' → b'.IsShortest := by
  intro hall
  have hcount : 5 * (maxRounds + 1) + 128 < UInt32.size := by decide
  obtain ⟨b', h⟩ := exists_compact_cascade hcount
  obtain ⟨hspells, hlaid⟩ := spells_of_compact h
  exact not_settled_cascade hcount (Nat.lt_succ_self maxRounds)
    ((hspells.isShortest_iff hlaid).mp (hall _ b' .empty .void h))

end MethodBody

end CilWeave
