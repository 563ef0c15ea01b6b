import Mathlib.Algebra.GroupWithZero.Nat
import Mathlib.Algebra.Order.BigOperators.Group.List
import Mathlib.Algebra.Order.Group.Nat
import CilWeave.Proofs.Rewrite.Context
import CilWeave.Proofs.Rewrite.Supplies

/-
Counting what a rewrite did.

There is one offer for each instruction of a kind, if these are the ones that the rule applies
to (`Rewriting.length_offers`). What is left of the kind are the instructions of that kind at
the old sites, as long as nothing that is put in is of it (`Rewriting.countP_result`).

Where things are put in that count, each instruction has a weight, and the weight of a body is the
sum over its code. What no visit changes is then conserved by the rewrite
(`Rewriting.weight_result_eq`).
-/

namespace CilWeave

open InstructionList (numbered)
open MethodBody (behindFirst)

variable {p : Instruction → Bool}

/-! ## Woven code -/

theorem countP_numbered (p : Instruction → Bool) : ∀ (n : Nat) (code : List Instruction),
    (numbered n code).countP (fun e => p e.2) = code.countP p
  | _, [] => rfl
  | n, i :: rest => by
    rw [numbered, List.countP_cons, List.countP_cons, countP_numbered p (n + 1) rest]

theorem countP_behindFirst {trailer : List (InstrId × Instruction)}
    (h : trailer.countP (fun e => p e.2) = 0) (code : List (InstrId × Instruction)) :
    (behindFirst trailer code).countP (fun e => p e.2) = code.countP fun e => p e.2 := by
  cases code with
  | nil => rfl
  | cons e rest =>
    rw [behindFirst, List.countP_cons, List.countP_cons, List.countP_append, h, Nat.zero_add]

/-- What is woven has what the sites have, if nothing else is counted. -/
theorem countP_weave (slots : Nat) : ∀ {stitches : List Stitch},
    (∀ s ∈ stitches, ∀ i ∈ s.rest ++ s.trailer, p i = false) →
    (weave slots stitches).code.countP (fun e => p e.2) = stitches.countP fun s => p s.head
  | [], _ => rfl
  | s :: rest, h => by
    obtain ⟨hone, hrest⟩ := List.forall_mem_cons.mp h
    have hnone : ∀ {n : Nat} {code : List Instruction}, (∀ i ∈ code, p i = false) →
        (numbered n code).countP (fun e => p e.2) = 0 := by
      intro n code hcode
      rw [countP_numbered, List.countP_eq_zero]
      intro i hi htrue
      rw [hcode i hi] at htrue
      cases htrue
    have hafter := fun i hi => hone i (List.mem_append_left _ hi)
    have htrailer := fun i hi => hone i (List.mem_append_right _ hi)
    have hadd : weave slots (s :: rest) = (weave slots rest).add s := rfl
    rw [hadd, Weave.add, List.countP_cons, List.countP_append, hnone hafter, Nat.zero_add,
      countP_behindFirst (hnone htrailer), countP_weave slots hrest, List.countP_cons]

/-! ## Weights -/

/-- What the instructions of a body weigh together. -/
def MethodBody.weight (b : MethodBody) (w : Instruction → Nat) : Nat :=
  (b.code.instructions.map w).sum

/-- What weighs what became of an instruction, with all that was put in. -/
def Stitch.weight (s : Stitch) (w : Instruction → Nat) : Nat :=
  w s.head + ((s.rest.map w).sum + (s.trailer.map w).sum)

variable {w : Instruction → Nat}

theorem Stitch.IsKept.weight_eq {s : Stitch} (h : s.IsKept) : s.weight w = w s.instruction := by
  rw [Stitch.weight, h.head_eq, h.rest_eq, h.trailer_eq]
  rfl

theorem Stitch.weight_eq_zero {s : Stitch} (hhead : w s.head = 0)
    (hnew : ∀ i ∈ s.rest ++ s.trailer, w i = 0) : s.weight w = 0 := by
  have hnone : ∀ n ∈ (s.rest ++ s.trailer).map w, n = 0 := by
    intro n hn
    obtain ⟨i, hi, rfl⟩ := List.mem_map.mp hn
    exact hnew i hi
  rw [weight, hhead, Nat.zero_add, ← List.sum_append, ← List.map_append, List.sum_eq_zero hnone]

theorem sum_numbered (w : Instruction → Nat) (n : Nat) (code : List Instruction) :
    ((numbered n code).map fun e => w e.2).sum = (code.map w).sum := by
  have hmap : ((numbered n code).map fun e => w e.2) = ((numbered n code).map Prod.snd).map w := by
    rw [List.map_map]
    rfl
  rw [hmap, map_snd_numbered]

theorem sum_behindFirst {trailer code : List (InstrId × Instruction)}
    (h : code = [] → trailer = []) (w : Instruction → Nat) :
    ((behindFirst trailer code).map fun e => w e.2).sum =
      (trailer.map fun e => w e.2).sum + (code.map fun e => w e.2).sum := by
  cases code with
  | nil =>
    rw [h rfl]
    rfl
  | cons e rest =>
    rw [behindFirst, List.map_cons, List.map_append, List.sum_cons, List.sum_append,
      List.map_cons, List.sum_cons]
    omega

/-- What is woven weighs what the stitches weigh, if there is nothing to come behind the last
one: a trailer that has nothing to stand behind is lost. -/
theorem sum_weave (slots : Nat) (w : Instruction → Nat) : ∀ {stitches : List Stitch},
    (∀ s ∈ stitches.getLast?, s.trailer = []) →
    ((weave slots stitches).code.map fun e => w e.2).sum =
      (stitches.map fun s => s.weight w).sum
  | [], _ => rfl
  | s :: rest, h => by
    have hrest : ∀ u ∈ rest.getLast?, u.trailer = [] := by
      intro u hu
      refine h u ?_
      rw [List.getLast?_cons, Option.mem_def.mp hu]
      rfl
    have hlast : (weave slots rest).code = [] →
        numbered ((weave slots rest).next + s.rest.length) s.trailer = [] := by
      intro hnil
      have hsites := sublist_weave slots rest
      rw [hnil, List.sublist_nil, List.map_eq_nil_iff] at hsites
      subst hsites
      rw [h s rfl]
      rfl
    have hadd : weave slots (s :: rest) = (weave slots rest).add s := rfl
    rw [hadd, Weave.add, List.map_cons, List.map_append, List.sum_cons, List.sum_append,
      sum_behindFirst hlast, sum_numbered, sum_numbered, sum_weave slots w hrest, List.map_cons,
      List.sum_cons, Stitch.weight]
    simp only
    omega

namespace RewriteRule.Rewriting

variable {σ : Type} {rule : RewriteRule σ} {d d' swept : Draft σ} {offers : List Offer}
  {expanded : MethodBody} {visits : List (Visit σ)}

/-! ## Offers -/

theorem instructions_visits (h : Rewriting rule d d' offers expanded visits swept) :
    visits.map (fun v => v.instruction) = expanded.code.instructions.reverse := by
  have hsnd : visits.map (fun v => v.instruction) = (visits.map Visit.entry).map Prod.snd := by
    rw [List.map_map]
    rfl
  rw [hsnd, h.entries, List.map_reverse, InstructionList.map_snd_entries]

theorem countP_visits (h : Rewriting rule d d' offers expanded visits swept)
    (hp : ∀ i : Instruction, p i.expanded = p i) :
    visits.countP (fun v => p v.instruction) = d.body.code.instructions.countP p := by
  have hmap := (MethodBody.expand_eq_ok h.expand).1
  have hcount : visits.countP (fun v => p v.instruction) =
      (visits.map fun v => v.instruction).countP p := by
    rw [List.countP_map]
    rfl
  rw [hcount, h.instructions_visits, List.countP_reverse, hmap.instructions_eq, List.countP_map]
  exact List.countP_congr fun i _ => by rw [Function.comp_apply, hp]

/-- There are as many offers as instructions that the rule applies to. -/
theorem length_offers (h : Rewriting rule d d' offers expanded visits swept)
    (hp : ∀ i : Instruction, p i.expanded = p i)
    (happlies : ∀ v ∈ visits, rule.appliesAt v.draft v.site = p v.instruction) :
    offers.length = d.body.code.instructions.countP p := by
  obtain ⟨scratch, hvisits⟩ := h.visited
  have hoffer : ∀ v ∈ visits, v.offer?.isSome = p v.instruction := by
    intro v hv
    obtain ⟨_, _, hleaves⟩ := leaves_of_mem hvisits hv
    rw [hleaves.offer?_isSome, happlies v hv]
  rw [h.offered, List.length_filterMap_eq_countP, ← h.countP_visits hp]
  exact List.countP_congr fun v hv => by rw [hoffer v hv]

theorem missedCount_offers (h : Rewriting rule d d' offers expanded visits swept) :
    Offer.missedCount offers = visits.countP fun v => v.outcome == .declined := by
  rw [h.offered, Offer.missedCount, List.countP_filterMap]
  refine List.countP_congr fun v _ => ?_
  cases ho : v.outcome <;> simp [Visit.offer?, ho]

/-! ## What is left -/

/-- What is left of a kind is at the old sites, if nothing that is put in is of that kind. -/
theorem countP_result (h : Rewriting rule d d' offers expanded visits swept)
    (hp : ∀ i i' : Instruction, i'.SaysSame i → p i' = p i)
    (hnew : ∀ v ∈ visits, ∀ i ∈ v.rest ++ v.trailer, p i = false) :
    d'.body.code.instructions.countP p = visits.countP fun v => p v.head := by
  have hstitches : ∀ s ∈ visits.reverse.map Visit.toStitch, ∀ i ∈ s.rest ++ s.trailer,
      p i = false := by
    intro s hs
    obtain ⟨v, hv, rfl⟩ := List.mem_map.mp hs
    exact hnew v (List.mem_reverse.mp hv)
  have hsame : d'.body.code.instructions.countP p = swept.body.code.instructions.countP p := by
    refine InstructionList.countP_instructions_congr h.ids_eq fun id i i' hi hi' => hp i i' ?_
    obtain ⟨j, hj, hsame⟩ := h.saysSame_woven (InstructionList.mem_entries.mpr hi)
    cases hj.symm.trans hi'
    exact hsame
  calc d'.body.code.instructions.countP p
      = swept.body.code.entries.countP (fun e => p e.2) := by
        rw [hsame, ← InstructionList.map_snd_entries, List.countP_map]
        rfl
    _ = (visits.reverse.map Visit.toStitch).countP fun s => p s.head := by
        rw [h.woven, countP_weave _ hstitches]
    _ = visits.countP fun v => p v.head := by
        rw [List.countP_map, List.countP_reverse]
        rfl

/-! ## What is conserved -/

section

variable (h : Rewriting rule d d' offers expanded visits swept)
  (hw : ∀ i i' : Instruction, i'.SaysSame i → w i' = w i)

include h hw

theorem sum_visits : (visits.map fun v => w v.instruction).sum = d.body.weight w := by
  have hmap := (MethodBody.expand_eq_ok h.expand).1
  have hsum : (visits.map fun v => w v.instruction).sum =
      ((visits.map fun v => v.instruction).map w).sum := by
    rw [List.map_map]
    rfl
  rw [hsum, h.instructions_visits, List.map_reverse, List.sum_reverse, hmap.instructions_eq,
    List.map_map, MethodBody.weight]
  exact congrArg List.sum (List.map_congr_left fun i _ => hw i _ i.saysSame_expanded)

variable (hlast : ∀ v ∈ visits.head?, v.trailer = [])

include hlast

theorem weight_result : d'.body.weight w = (visits.map fun v => v.toStitch.weight w).sum := by
  have hsame : d'.body.code.instructions.map w = swept.body.code.instructions.map w := by
    refine InstructionList.map_instructions_congr h.ids_eq fun id i i' hi hi' => hw i i' ?_
    obtain ⟨j, hj, hsame⟩ := h.saysSame_woven (InstructionList.mem_entries.mpr hi)
    cases hj.symm.trans hi'
    exact hsame
  have hstitches : ∀ s ∈ (visits.reverse.map Visit.toStitch).getLast?, s.trailer = [] := by
    intro s hs
    rw [List.getLast?_map, List.getLast?_reverse] at hs
    obtain ⟨v, hv, rfl⟩ := Option.map_eq_some_iff.mp hs
    exact hlast v hv
  calc d'.body.weight w
      = (swept.body.code.entries.map fun e => w e.2).sum := by
        rw [MethodBody.weight, hsame, ← InstructionList.map_snd_entries, List.map_map]
        rfl
    _ = ((visits.reverse.map Visit.toStitch).map fun s => s.weight w).sum := by
        rw [h.woven, sum_weave _ w hstitches]
    _ = (visits.map fun v => v.toStitch.weight w).sum := by
        rw [List.map_reverse, List.map_reverse, List.sum_reverse, List.map_map]
        rfl

/-- What no visit changes, a rewrite conserves. -/
theorem weight_result_eq (hvisit : ∀ v ∈ visits, v.toStitch.weight w = w v.instruction) :
    d'.body.weight w = d.body.weight w := by
  rw [h.weight_result hw hlast, ← h.sum_visits hw]
  exact congrArg List.sum (List.map_congr_left hvisit)

theorem weight_result_le (hvisit : ∀ v ∈ visits, v.toStitch.weight w ≤ w v.instruction) :
    d'.body.weight w ≤ d.body.weight w := by
  rw [h.weight_result hw hlast, ← h.sum_visits hw]
  exact List.sum_le_sum hvisit

end

end RewriteRule.Rewriting

end CilWeave
