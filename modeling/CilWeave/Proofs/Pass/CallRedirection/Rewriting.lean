import Mathlib.Data.List.Nodup
import CilWeave.Proofs.Pass.CallRedirection.Redirecting

/-
What a redirection makes of one body.

The rule never fails on an expanded body, and what it does to an instruction does not depend
on the others. So a rewrite has a closed form (`Redirecting.rewrite_eq`): every call that can
be redirected is, in place, and nothing else changes. It is refused only where a compaction of
the body as it was would be (`Redirecting.attempt_error_iff`), and to rewrite the outcome once
more changes nothing (`Redirecting.attempt_again`).
-/

namespace CilWeave

namespace Redirecting

open MethodBody

variable {q : Redirecting} {b b' s s' : MethodBody} {returnType : TypeSig} {offers : List Offer}
  {i : Instruction}

/-! ## The rule on an expanded body -/

/-- What is offered to the rule of the instructions of some handles. -/
def offered (q : Redirecting) (b : MethodBody) (sites : List InstrId) : List Offer :=
  sites.filterMap fun id => (b.code.get? id).bind fun i =>
    if q.pass.applies q.refs i then some ⟨id, q.redirects i⟩ else none

/-- The body with its calls redirected, in the order in which they are offered. -/
def redirectAll (q : Redirecting) (b : MethodBody) : MethodBody :=
  b.code.ids.reverse.foldl (fun b id => b.modifyAt id q.redirected) b

theorem redirected_of_not_applies (h : q.pass.applies q.refs i = false) : q.redirected i = i := by
  refine redirected_of_not (Bool.eq_false_iff.mpr fun hredirects => ?_)
  rw [applies_iff.mpr (.inl hredirects)] at h
  cases h

theorem build_eq {site : InstrId} {u : Supplies Unit} (hi : b.code.get? site = some i)
    (happlies : q.pass.applies q.refs i = true) (hrefs : u.references = q.refs) :
    q.rule.build b site u =
      .ok (if q.redirects i then some (.of [.call q.token]) else none) u := by
  rw [applies_eq, Option.any_eq_true] at happlies
  obtain ⟨method, hcallee, htargets⟩ := happlies
  obtain ⟨-, t, ht, hmethod⟩ := callee?_eq_some.mp hcallee
  simp only [rule, CallRedirection.rule, MethodBody.instruction, hi,
    Instruction.token?_eq_some.mpr ht, hrefs, hmethod, redirects, hcallee, Option.any_some,
    htargets, Bool.true_and]
  split <;> rfl

theorem replace_call {site : InstrId} {t : Token} (hsite : b.code.contains site = true) :
    replace site (.of [.call t]) b =
      .ok () (b.modifyAt site fun i => i.recode .call (.token t)) := by
  simp only [replace, Replacement.of, if_pos hsite, insertAllAfter, insertTrailer,
    Instruction.call, Instruction.of]

theorem offer_eq {site : InstrId} {scratch : ScratchLocals} {d : Draft Unit}
    (hi : d.body.code.get? site = some i) (happlies : q.pass.applies q.refs i = true)
    (hrefs : d.references = q.refs) : q.rule.offer site scratch d =
      .ok (⟨site, q.redirects i⟩, scratch)
        { d with body := d.body.modifyAt site q.redirected } := by
  have hbuild := build_eq (u := ⟨d.body.locals, scratch, d.references, d.memory⟩) hi happlies hrefs
  simp only [RewriteRule.offer, hbuild]
  cases hredirects : q.redirects i with
  | false =>
    have hkept : d.body.modifyAt site q.redirected = d.body := by
      refine modifyAt_eq_self fun j hj => ?_
      rw [hi] at hj
      cases hj
      exact redirected_of_not hredirects
    rw [hkept]
    rfl
  | true =>
    have hsite := InstructionList.contains_of_get? hi
    have hchange : (d.body.modifyAt site fun i => i.recode .call (.token q.token)) =
        d.body.modifyAt site q.redirected := by
      refine modifyAt_congr fun j hj => ?_
      rw [hi] at hj
      cases hj
      exact (redirected_of hredirects).symm
    simp only [if_true, Draft.onBody, Edit.within, replace_call hsite, hchange]

theorem offered_congr {sites : List InstrId} (h : ∀ id ∈ sites, s'.code.get? id = s.code.get? id) :
    q.offered s' sites = q.offered s sites :=
  List.filterMap_congr fun id hid => by rw [h id hid]

/-- Each instruction is offered as it was at the start, whatever was redirected before. -/
theorem offerEach_eq : ∀ {sites : List InstrId} {scratch : ScratchLocals} {done : List Offer}
    {d : Draft Unit}, sites.Nodup → d.references = q.refs →
    q.rule.offerEach sites scratch done d = .ok (done.reverse ++ q.offered d.body sites)
      { d with body := sites.foldl (fun b id => b.modifyAt id q.redirected) d.body }
  | [], scratch, done, d, _, _ => by
    simp only [RewriteRule.offerEach, offered, List.filterMap_nil, List.append_nil, List.foldl_nil]
  | site :: rest, scratch, done, d, hnodup, hrefs => by
    obtain ⟨hsite, hrest⟩ := List.nodup_cons.mp hnodup
    have hlater : q.offered (d.body.modifyAt site q.redirected) rest = q.offered d.body rest := by
      refine offered_congr fun id hid => ?_
      have hne : id ≠ site := fun heq => hsite (heq ▸ hid)
      simp only [modifyAt, InstructionList.get?_modify, if_neg hne]
    have happlies : q.rule.appliesAt d site =
        (d.body.code.get? site).any (q.pass.applies q.refs) := by
      simp only [RewriteRule.appliesAt, rule, CallRedirection.rule, hrefs]
      cases d.body.code.get? site <;> rfl
    rw [RewriteRule.offerEach, happlies, List.foldl_cons]
    cases hi : d.body.code.get? site with
    | none =>
      have hkept : d.body.modifyAt site q.redirected = d.body := by
        refine modifyAt_eq_self fun j hj => ?_
        rw [hi] at hj
        cases hj
      rw [hkept, Option.any_none, if_neg Bool.false_ne_true, offerEach_eq hrest hrefs]
      simp only [offered, List.filterMap_cons, hi, Option.bind_none]
    | some i =>
      rw [Option.any_some]
      cases happlies : q.pass.applies q.refs i with
      | false =>
        have hkept : d.body.modifyAt site q.redirected = d.body := by
          refine modifyAt_eq_self fun j hj => ?_
          rw [hi] at hj
          cases hj
          exact redirected_of_not_applies happlies
        rw [hkept, if_neg Bool.false_ne_true, offerEach_eq hrest hrefs]
        simp only [offered, List.filterMap_cons, hi, Option.bind_some, happlies,
          Bool.false_eq_true, if_false]
      | true =>
        have hnext : q.rule.offerEach rest scratch (⟨site, q.redirects i⟩ :: done)
            { d with body := d.body.modifyAt site q.redirected } = .ok _ _ :=
          offerEach_eq hrest hrefs
        rw [if_pos rfl, offer_eq hi happlies hrefs]
        simp only [hnext, hlater]
        simp only [offered, List.filterMap_cons, hi, Option.bind_some, happlies, if_true,
          List.reverse_cons, List.append_assoc, List.singleton_append]

theorem sweep_eq (q : Redirecting) (s : MethodBody) : q.rule.sweep ⟨s, q.refs, ()⟩ =
    .ok (q.offered s s.code.ids.reverse) ⟨q.redirectAll s, q.refs, ()⟩ := by
  rw [RewriteRule.sweep, offerEach_eq (List.nodup_reverse.mpr s.code.nodup_ids) rfl,
    List.reverse_nil, List.nil_append]
  rfl

theorem mapped_redirectAll (q : Redirecting) (s : MethodBody) :
    Mapped (fun _ i => q.redirected i) s (q.redirectAll s) :=
  (mapped_foldl_modifyAt q.redirected (List.nodup_reverse.mpr s.code.nodup_ids)).congr
    fun _ _ hi => if_pos (List.mem_reverse.mpr (InstructionList.mem_ids_of_get? hi))

/-! ## Counting -/

theorem countP_offered (q : Redirecting) (s : MethodBody) (p : Bool → Bool) :
    (q.offered s s.code.ids.reverse).countP (fun o => p o.replaced) =
      s.code.instructions.countP fun i => q.pass.applies q.refs i && p (q.redirects i) := by
  have hone : ∀ sites : List InstrId, (q.offered s sites).countP (fun o => p o.replaced) =
      (sites.filterMap s.code.get?).countP fun i =>
        q.pass.applies q.refs i && p (q.redirects i) := by
    intro sites
    induction sites with
    | nil => rfl
    | cons id rest ih =>
      simp only [offered, List.filterMap_cons] at ih ⊢
      cases s.code.get? id with
      | none => exact ih
      | some i =>
        rw [Option.bind_some, List.countP_cons, ← ih]
        cases q.pass.applies q.refs i with
        | false => simp
        | true => simp [List.countP_cons]
  rw [hone, List.filterMap_reverse, List.countP_reverse]
  rfl

theorem replacedCount_offered (q : Redirecting) (s : MethodBody) :
    Offer.replacedCount (q.offered s s.code.ids.reverse) =
      s.code.instructions.countP q.redirects := by
  refine (q.countP_offered s fun b => b).trans (List.countP_congr fun i _ => ?_)
  rw [Bool.and_eq_true, applies_iff]
  tauto

theorem missedCount_offered (q : Redirecting) (s : MethodBody) :
    Offer.missedCount (q.offered s s.code.ids.reverse) = s.code.instructions.countP q.misses := by
  refine (q.countP_offered s fun b => !b).trans (List.countP_congr fun i _ => ?_)
  rw [Bool.and_eq_true, applies_iff, Bool.not_eq_true']
  constructor
  · rintro ⟨h | h, hnot⟩
    · rw [h] at hnot
      cases hnot
    · exact h
  · intro h
    refine ⟨.inr h, Bool.eq_false_iff.mpr fun hredirects => ?_⟩
    rw [not_misses_of_redirects hredirects] at h
    cases h

/-! ## The expanded body with its calls redirected -/

theorem redirectAll_eq_self (h : ∀ i ∈ s.code.instructions, q.redirected i = i) :
    q.redirectAll s = s := by
  have hkept : ∀ sites : List InstrId,
      sites.foldl (fun b id => b.modifyAt id q.redirected) s = s := by
    intro sites
    induction sites with
    | nil => rfl
    | cons id rest ih =>
      have hone : s.modifyAt id q.redirected = s := modifyAt_eq_self fun i hi =>
        h i (InstructionList.mem_instructions.mpr ⟨id, hi⟩)
      rw [List.foldl_cons, hone, ih]
  exact hkept _

theorem expand_redirectAll (hs : expand b = .ok () s) :
    expand (q.redirectAll s) = .ok () (q.redirectAll s) := by
  obtain ⟨hmap, hfits, hvalid⟩ := expand_eq_ok hs
  have hredirected := q.mapped_redirectAll s
  refine expand_of_expanded (fun id i' hi' => ?_) ?_
  · obtain ⟨j, hj, rfl⟩ := hredirected.of_get? hi'
    obtain ⟨i, hi, rfl⟩ := hmap.of_get? hj
    exact ⟨fits_redirected (Instruction.fits_expanded (hfits id i hi)),
      expanded_redirected i.expanded_expanded⟩
  · exact hredirected.valid hvalid (fun _ => targets_redirected) fun _ _ _ => local_of_redirected

theorem runsAlike_redirectAll (q : Redirecting) (s : MethodBody) (returnType : TypeSig) :
    RunsAlike s q.refs (q.redirectAll s) q.refs returnType ∧
      RunsAlike (q.redirectAll s) q.refs s q.refs returnType := by
  have hmap := q.mapped_redirectAll s
  constructor
  · refine ⟨hmap.ids, fun handler => by rw [hmap.handlers], fun id i hi => ?_⟩
    refine ⟨q.redirected i, hmap.get?_of hi, flow_redirected i, fun t => ?_, fun effect he => ?_⟩
    · rw [targets_redirected]
    · rw [stackEffect_redirected, he]
  · refine ⟨hmap.ids.symm, fun handler => by rw [hmap.handlers], fun id i' hi' => ?_⟩
    obtain ⟨i, hi, rfl⟩ := hmap.of_get? hi'
    refine ⟨i, hi, (flow_redirected i).symm, fun t => ?_, fun effect he => ?_⟩
    · rw [targets_redirected]
    · rw [← stackEffect_redirected, he]

theorem computeMaxStack_redirectAll (hs : expand b = .ok () s) (m : UInt16) :
    (q.redirectAll s).computeMaxStack q.refs returnType = .ok m ↔
      b.computeMaxStack q.refs returnType = .ok m := by
  obtain ⟨hmap, hfits, -⟩ := expand_eq_ok hs
  have hsame : s.Rephrases b := hmap.rephrases fun _ i => i.saysSame_expanded
  have hfits' : s.Fitting := hmap.fitting hfits fun _ _ hi => Instruction.fits_expanded hi
  obtain ⟨hto, hback⟩ := q.runsAlike_redirectAll s returnType
  rw [← hsame.computeMaxStack_iff hfits hfits']
  exact ⟨hback.computeMaxStack_eq_ok, hto.computeMaxStack_eq_ok⟩

theorem roomNeeded_redirectAll (hs : expand b = .ok () s) :
    (q.redirectAll s).roomNeeded = b.roomNeeded := by
  have hmap := (expand_eq_ok hs).1
  simp only [roomNeeded, (q.mapped_redirectAll s).instructions_eq, hmap.instructions_eq,
    List.map_map, Function.comp_def, room_redirected, Instruction.expanded_expanded]

theorem exists_compact_redirectAll (hs : expand b = .ok () s) :
    (∃ b', compact q.refs returnType (q.redirectAll s) = .ok () b') ↔
      b.roomNeeded < UInt32.size ∧ ∃ m, b.computeMaxStack q.refs returnType = .ok m := by
  rw [exists_compact_iff, roomNeeded_redirectAll hs]
  simp only [computeMaxStack_redirectAll hs]
  exact and_iff_right ⟨_, expand_redirectAll hs⟩

/-! ## Rewriting a body -/

/-- The outcome of a rewrite of a body, with what was offered to the rule. -/
def attempt (q : Redirecting) (returnType : TypeSig) (b : MethodBody) :
    Except Error (MethodBody × List Offer) :=
  match expand b with
  | .error e _ => .error e
  | .ok () s =>
    let offers := q.offered s s.code.ids.reverse
    if offers.any Offer.replaced then
      match compact q.refs returnType (q.redirectAll s) with
      | .error e _ => .error e
      | .ok () b' => .ok (b', offers)
    else .ok (b, offers)

theorem rewrite_eq (q : Redirecting) (returnType : TypeSig) (b : MethodBody) :
    q.rule.rewrite returnType ⟨b, q.refs, ()⟩ =
      match q.attempt returnType b with
      | .ok (b', offers) => .ok offers ⟨b', q.refs, ()⟩
      | .error e => .error e ⟨b, q.refs, ()⟩ := by
  simp only [RewriteRule.rewrite, Draft.transact, Draft.editExpanded, Draft.onBody, Edit.within,
    attempt]
  cases expand b with
  | error e s => rfl
  | ok u s =>
    simp only [sweep_eq]
    cases hany : (q.offered s s.code.ids.reverse).any Offer.replaced with
    | false => simp only [hany, Bool.false_eq_true, if_false]
    | true =>
      simp only [if_true]
      cases compact q.refs returnType (q.redirectAll s) with
      | error e s => rfl
      | ok u b' => simp only [hany, if_true]

theorem any_offered (q : Redirecting) (s : MethodBody) :
    (q.offered s s.code.ids.reverse).any Offer.replaced = s.code.instructions.any q.redirects := by
  rw [Bool.eq_iff_iff, List.any_eq_true, List.any_eq_true]
  have hcount := q.replacedCount_offered s
  rw [← List.countP_pos_iff, ← List.countP_pos_iff, ← hcount]
  rfl

/-- A rewrite that succeeds has compacted the redirected body, unless no call is redirected. -/
theorem attempt_eq_ok (h : q.attempt returnType b = .ok (b', offers)) :
    ∃ s, expand b = .ok () s ∧ offers = q.offered s s.code.ids.reverse ∧
      (b' = b ∧ (∀ i ∈ s.code.instructions, q.redirects i = false) ∨
        compact q.refs returnType (q.redirectAll s) = .ok () b') := by
  simp only [attempt] at h
  split at h
  · cases h
  · rename_i s hs
    refine ⟨s, hs, ?_⟩
    rw [any_offered] at h
    split at h
    · split at h
      · cases h
      · rename_i hcompact
        cases h
        exact ⟨rfl, .inr hcompact⟩
    · rename_i hany
      cases h
      refine ⟨rfl, .inl ⟨rfl, fun i hi => Bool.eq_false_iff.mpr fun hredirects => hany ?_⟩⟩
      exact List.any_eq_true.mpr ⟨i, hi, hredirects⟩

/-- A rewrite is refused exactly where the body cannot be expanded, or has a call to redirect
and would not be compacted as it is. -/
theorem attempt_error_iff : (∃ e, q.attempt returnType b = .error e) ↔
    (∀ s, expand b ≠ .ok () s) ∨ ∃ s, expand b = .ok () s ∧
      (∃ i ∈ s.code.instructions, q.redirects i = true) ∧
      (UInt32.size ≤ b.roomNeeded ∨ ∀ m, b.computeMaxStack q.refs returnType ≠ .ok m) := by
  simp only [attempt]
  cases hs : expand b with
  | error e s => exact iff_of_true ⟨e, rfl⟩ (.inl fun s h => by cases h)
  | ok u s =>
    have hcompact : (∃ b', compact q.refs returnType (q.redirectAll s) = .ok () b') ↔ _ :=
      exists_compact_redirectAll hs
    simp only [any_offered]
    cases hany : s.code.instructions.any q.redirects with
    | false =>
      refine iff_of_false (fun ⟨e, h⟩ => ?_) ?_
      · rw [if_neg Bool.false_ne_true] at h
        cases h
      · rintro (hnone | ⟨s₁, hs₁, ⟨i, hi, hredirects⟩, -⟩)
        · exact hnone s rfl
        · cases hs₁
          rw [List.any_eq_true.mpr ⟨i, hi, hredirects⟩] at hany
          cases hany
    | true =>
      obtain ⟨i, hi, hredirects⟩ := List.any_eq_true.mp hany
      rw [if_pos rfl]
      constructor
      · rintro ⟨e, h⟩
        refine .inr ⟨s, rfl, ⟨i, hi, hredirects⟩, ?_⟩
        by_contra hfit
        rw [not_or, Nat.not_le, not_forall] at hfit
        obtain ⟨b', hb'⟩ := hcompact.mpr ⟨hfit.1, hfit.2.imp fun m hm => not_not.mp hm⟩
        rw [hb'] at h
        cases h
      · rintro (hnone | ⟨s₁, hs₁, -, hrefused⟩)
        · exact absurd rfl (hnone s)
        · cases hs₁
          cases hb' : compact q.refs returnType (q.redirectAll s) with
          | error e t => exact ⟨e, rfl⟩
          | ok u b' =>
            obtain ⟨hroom, m, hm⟩ := hcompact.mp ⟨b', hb'⟩
            rcases hrefused with hrefused | hrefused
            · omega
            · exact absurd hm (hrefused m)

/-! ## What a rewrite leaves -/

theorem spelledAlike_of_attempt (h : q.attempt returnType b = .ok (b', offers)) :
    ∃ s s', expand b = .ok () s ∧ expand b' = .ok () s' ∧ SpelledAlike s' (q.redirectAll s) ∧
      s'.locals = s.locals ∧ s'.handlers = s.handlers := by
  obtain ⟨s, hs, -, ⟨rfl, hnone⟩ | hcompact⟩ := attempt_eq_ok h
  · refine ⟨s, s, hs, hs, ?_, rfl, rfl⟩
    rw [redirectAll_eq_self fun i hi => redirected_of_not (hnone i hi)]
    exact .refl s
  · obtain ⟨s₁, s', hs₁, hs', -, hlocals, hhandlers⟩ := expand_of_compact hcompact
    rw [expand_redirectAll hs] at hs₁
    cases hs₁
    have hmap := q.mapped_redirectAll s
    refine ⟨s, s', hs, hs', ?_, hlocals.trans hmap.locals, hhandlers.trans hmap.handlers⟩
    exact (compact_eq_ok hcompact).2.spelledAlike (expand_eq_ok (expand_redirectAll hs)).1
      (expand_eq_ok hs').1

theorem inPlace_of_attempt (h : q.attempt returnType b = .ok (b', offers)) :
    InPlace b { b' with maxStack := b.maxStack } := by
  obtain ⟨s, hs, -, ⟨rfl, -⟩ | hcompact⟩ := attempt_eq_ok h
  · exact .refl _
  · obtain ⟨hcode, hlocals, hhandlers, hinit, -⟩ :=
      ((InPlace.expand hs).trans (.foldl_modifyAt q.redirected s.code.ids.reverse s)).trans
        (InPlace.compact hcompact)
    exact ⟨hcode, hlocals, hhandlers, hinit, rfl⟩

theorem computeMaxStack_of_attempt (h : q.attempt returnType b = .ok (b', offers)) :
    b'.computeMaxStack q.refs returnType = b.computeMaxStack q.refs returnType := by
  obtain ⟨s, hs, -, ⟨rfl, -⟩ | hcompact⟩ := attempt_eq_ok h
  · rfl
  · have hverified := (compact_eq_ok hcompact).1.maxStack
    rw [hverified]
    exact ((computeMaxStack_redirectAll hs _).mp
      ((computeMaxStack_compact hcompact _).mp hverified)).symm

theorem instruction_of_attempt (hsame : SpelledAlike s' (q.redirectAll s))
    (hi : i ∈ s'.code.instructions) : ∃ j ∈ s.code.instructions,
      i.op = (q.redirected j).op ∧ i.operand = (q.redirected j).operand := by
  have hmap := q.mapped_redirectAll s
  obtain ⟨id, hid⟩ := InstructionList.mem_instructions.mp hi
  obtain ⟨j', hj'⟩ := InstructionList.get?_of_mem (hsame.ids ▸ InstructionList.mem_ids_of_get? hid)
  obtain ⟨j, hj, rfl⟩ := hmap.of_get? hj'
  exact ⟨j, InstructionList.mem_instructions.mpr ⟨id, hj⟩, hsame.same id _ i hj' hid⟩

theorem redirected_of_attempt (hsame : SpelledAlike s' (q.redirectAll s))
    (hi : i ∈ s'.code.instructions) : q.redirected i = i := by
  obtain ⟨j, -, hop, hoperand⟩ := instruction_of_attempt hsame hi
  cases hredirects : q.redirects i with
  | false => exact redirected_of_not hredirects
  | true =>
    -- What can be redirected now is a call of the replacement already.
    have hbefore := hredirects
    rw [redirects_congr hop hoperand, redirects_redirected] at hbefore
    rw [redirected_of hbefore.1] at hop hoperand
    rw [redirected_of hredirects]
    obtain ⟨op, operand, offset⟩ := i
    cases hop
    cases hoperand
    rfl

theorem misses_of_attempt (hsame : SpelledAlike s' (q.redirectAll s)) :
    s'.code.instructions.countP q.misses = s.code.instructions.countP q.misses := by
  rw [hsame.countP_eq fun _ _ => misses_congr, (q.mapped_redirectAll s).instructions_eq,
    List.countP_map]
  exact List.countP_congr fun i _ => by rw [Function.comp_apply, misses_redirected]

/-- What a rewrite leaves is rewritten to itself, with the same misses. -/
theorem attempt_again (h : q.attempt returnType b = .ok (b', offers)) :
    ∃ offers', q.attempt returnType b' = .ok (b', offers') ∧
      Offer.missedCount offers' = Offer.missedCount offers ∧
      (q.pass.targets q.replacement = false → Offer.replacedCount offers' = 0) := by
  obtain ⟨s, s', hs, hs', hsame, -⟩ := spelledAlike_of_attempt h
  obtain ⟨s₁, hs₁, rfl, hcases⟩ := attempt_eq_ok h
  rw [hs] at hs₁
  cases hs₁
  have hkept : q.redirectAll s' = s' :=
    redirectAll_eq_self fun i hi => redirected_of_attempt hsame hi
  refine ⟨q.offered s' s'.code.ids.reverse, ?_, ?_, fun htargets => ?_⟩
  · simp only [attempt, hs', hkept]
    split
    · rename_i hany
      rcases hcases with ⟨rfl, hnone⟩ | hcompact
      · rw [hs] at hs'
        cases hs'
        rw [any_offered] at hany
        obtain ⟨i, hi, hredirects⟩ := List.any_eq_true.mp hany
        rw [hnone i hi] at hredirects
        cases hredirects
      · have hagain := compact_compact hcompact
        rw [compact_of_expand hs'] at hagain
        rw [compact_of_expand (expand_expand hs'), hagain]
    · rfl
  · rw [missedCount_offered, missedCount_offered, misses_of_attempt hsame]
  · rw [replacedCount_offered, List.countP_eq_zero]
    intro i hi hredirects
    obtain ⟨j, -, hop, hoperand⟩ := instruction_of_attempt hsame hi
    rw [redirects_congr hop hoperand, redirects_redirected, htargets] at hredirects
    cases hredirects.2

end Redirecting

end CilWeave
