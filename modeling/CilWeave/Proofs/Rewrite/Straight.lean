import CilWeave.Proofs.Rewrite.Context
import CilWeave.Proofs.Rewrite.Supplies
import CilWeave.Proofs.StackDepth.Reach

/-
Rules that leave it to control where it goes.

A straight rule replaces nothing that jumps, and all it puts in goes on to what is behind it. So
wherever control comes to in a body, it comes to in the rewritten one
(`RewriteRule.Rewriting.reaches`). A rewrite that changes the body is only kept if the stack is
in order, and for that every call has to be the call of a method that is known
(`RewriteRule.Straight.resolvesCalls`).
-/

namespace CilWeave

open Execution (Stands)

namespace MethodBody

variable {b : MethodBody} {id last : InstrId}

theorem Reaches.through (h : b.Reaches id) {code : List Instruction}
    (hstands : Stands b id (code.map Instruction.said) last)
    (hcode : ∀ i ∈ code, i.op.flow.goesOn = true) : b.Reaches last := by
  induction code generalizing id with
  | nil =>
    cases hstands
    exact h
  | cons i rest ih =>
    obtain ⟨hfirst, hrest⟩ := List.forall_mem_cons.mp hcode
    cases hstands with
    | cons hfetch hnext hstands =>
      obtain ⟨j, hj, hsaid⟩ := Option.map_eq_some_iff.mp hfetch
      have hflow : j.op.flow = i.op.flow := (Instruction.saysSame_iff.mpr hsaid).flow_eq
      exact ih (h.next hj (hflow ▸ hfirst) hnext) hstands hrest

end MethodBody

namespace RewriteRule

variable {σ : Type} {rule : RewriteRule σ} {returnType : TypeSig} {d d' swept : Draft σ}
  {offers : List Offer} {expanded : MethodBody} {visits : List (Visit σ)}

/-- What is replaced does not jump, and each call among it is the call of a method that is known.
All that takes its place goes on to what is behind it. -/
def Straight (rule : RewriteRule σ) : Prop :=
  ∀ {body : MethodBody} {site : InstrId} {i : Instruction} {s s' : Supplies σ}
    {replacement : Replacement}, body.code.get? site = some i →
    rule.applies s.memory s.references i = true →
    rule.build body site s = .ok (some replacement) s' →
    i.op.flow.jumps = false ∧
      (i.op.callsMethod = true → ∃ callee, i.calledMethod s.references = .ok callee) ∧
      ∀ j ∈ replacement.sequence ++ replacement.trailer, j.op.flow.goesOn = true

namespace Rewriting

/-- What a straight rule makes of the instruction of a visit. -/
theorem visit_cases (h : Rewriting rule d d' offers expanded visits swept)
    (hstraight : rule.Straight) {v : Visit σ} (hv : v ∈ visits) :
    v.toStitch.IsKept ∨
      v.instruction.op.flow.jumps = false ∧
        (v.instruction.op.callsMethod = true →
          ∃ callee, v.instruction.calledMethod v.draft.references = .ok callee) ∧
        v.head.op.flow.goesOn = true ∧ ∀ i ∈ v.rest ++ v.trailer, i.op.flow.goesOn = true := by
  obtain ⟨scratch, hvisits⟩ := h.visited
  have hget := h.get? v hv
  obtain ⟨left, rest, hleaves⟩ := RewriteRule.leaves_of_mem hvisits hv
  cases hleaves with
  | passed ho => exact .inl fun _ => by rw [ho]; nofun
  | declined ho => exact .inl fun _ => by rw [ho]; nofun
  | @replaced replacement s body ho happlies hbuild hreplace =>
    simp only [RewriteRule.appliesAt, hget] at happlies
    obtain ⟨hjumps, hcalls, hgoes⟩ := hstraight hget happlies hbuild
    obtain ⟨sequence, trailer⟩ := replacement
    cases sequence with
    | nil => exact absurd rfl (MethodBody.sequence_ne_nil_of_replace hreplace)
    | cons first rest =>
      obtain ⟨hhead, hrest, htrailer⟩ := Stitch.of_replaced ho
      refine .inr ⟨hjumps, hcalls, ?_, ?_⟩
      · rw [hhead]
        exact hgoes first List.mem_cons_self
      · rw [hrest, htrailer]
        exact fun j hj => hgoes j (List.mem_cons_of_mem first hj)

theorem goesOn_new (h : Rewriting rule d d' offers expanded visits swept)
    (hstraight : rule.Straight) {v : Visit σ} (hv : v ∈ visits) :
    ∀ i ∈ v.rest ++ v.trailer, i.op.flow.goesOn = true := by
  rcases h.visit_cases hstraight hv with hkept | ⟨-, -, -, hgoes⟩
  · rw [hkept.rest_eq, hkept.trailer_eq]
    exact fun i hi => absurd hi List.not_mem_nil
  · exact hgoes

theorem goesOn_lastTrailer (h : Rewriting rule d d' offers expanded visits swept)
    (hstraight : rule.Straight) {pre post : List (Visit σ)}
    (hsplit : visits.reverse = pre ++ post) :
    ∀ i ∈ lastTrailer (pre.map Visit.toStitch), i.op.flow.goesOn = true := by
  intro i hi
  simp only [lastTrailer, List.getLast?_map] at hi
  cases hlast : pre.getLast? with
  | none =>
    rw [hlast] at hi
    cases hi
  | some u =>
    rw [hlast] at hi
    have hu : u ∈ visits := by
      rw [← List.mem_reverse, hsplit]
      exact List.mem_append_left post (List.mem_of_getLast? hlast)
    exact h.goesOn_new hstraight hu i (List.mem_append_right u.rest hi)

/-- Wherever control comes to in a body, it comes to in the rewritten one. -/
theorem reaches (h : Rewriting rule d d' offers expanded visits swept)
    (hstraight : rule.Straight) {id : InstrId} (hid : d.body.Reaches id) : d'.body.Reaches id := by
  have visitOf : ∀ {id i}, d.body.code.get? id = some i → ∃ pre v post,
      visits.reverse = pre ++ v :: post ∧ v.site = id ∧ v ∈ visits ∧
        v.instruction.SaysSame i := by
    intro id i hi
    obtain ⟨pre, v, post, hsplit, rfl⟩ := h.exists_split (InstructionList.mem_ids_of_get? hi)
    have hv := mem_of_split hsplit
    obtain ⟨j, hj, hsame⟩ := h.says_original hv
    cases hi.symm.trans hj
    exact ⟨pre, v, post, hsplit, rfl, hv, hsame⟩
  -- By induction on the path: the sites are as they were, and between two of them there is
  -- straight code only.
  induction hid with
  | @entry id depth hentry =>
    cases hentry with
    | first hid => exact .entry (.first (h.first?_eq.trans hid))
    | handler hh => exact .entry (.handler (h.handlers_eq ▸ hh))
    | filter hh hid => exact .entry (.filter (h.handlers_eq ▸ hh) hid)
  | @next id id' i _ hi hgoes hnext ih =>
    obtain ⟨pre, v, post, hsplit, rfl, hv, hsame⟩ := visitOf hi
    rw [h.next?_original hsplit] at hnext
    cases post with
    | nil => cases hnext
    | cons next post =>
      cases hnext
      refine ih.through (h.stands hsplit) (List.forall_mem_cons.mpr ⟨?_, fun j hj => ?_⟩)
      · rcases h.visit_cases hstraight hv with hkept | ⟨-, -, hhead, -⟩
        · rw [hkept.head_eq, hsame.flow_eq]
          exact hgoes
        · exact hhead
      · rcases List.mem_append.mp hj with hj | hj
        · exact h.goesOn_lastTrailer hstraight hsplit j hj
        · exact h.goesOn_new hstraight hv j (List.mem_append_left v.trailer hj)
  | @target id id' i _ hi hjumps htarget ih =>
    obtain ⟨pre, v, post, hsplit, rfl, hv, hsame⟩ := visitOf hi
    rcases h.visit_cases hstraight hv with hkept | ⟨hnot, -⟩
    · obtain ⟨j, hj, hwoven⟩ := h.saysSame_woven (hkept.head_eq ▸ h.mem_woven hv)
      have hwhole := hwoven.trans hsame
      refine ih.target hj (hwhole.flow_eq ▸ hjumps) ?_
      rw [hwhole.targets_eq_of_jumps hjumps]
      exact htarget
    · rw [hsame.flow_eq, hjumps] at hnot
      cases hnot

theorem references_growsTo (h : Rewriting rule d d' offers expanded visits swept)
    (himports : rule.OnlyImports) {v : Visit σ} (hv : v ∈ visits) :
    v.draft.references.GrowsTo d'.references := by
  obtain ⟨scratch, hvisits⟩ := h.visited
  let Grows (s s' : Supplies σ) : Prop := s.references.GrowsTo s'.references
  have hrefl : ∀ s, Grows s s := fun s => .refl s.references
  have htrans : ∀ {s s' s''}, Grows s s' → Grows s' s'' → Grows s s'' :=
    ReferenceTable.GrowsTo.trans
  have hrule : ∀ body site, Edit.Ensures (rule.build body site) Grows := himports
  obtain ⟨-, heach⟩ := hvisits.supplies hrefl htrans hrule
  obtain ⟨-, left, rest, hleaves, hrest⟩ := heach v hv
  rw [h.references]
  exact htrans (hleaves.supplies hrefl hrule) hrest

end Rewriting

/-- A straight rule changes no body in which control can come to the call of a method that is not
known in the end. -/
theorem Straight.resolvesCalls (hstraight : rule.Straight) (himports : rule.OnlyImports)
    (h : rule.rewrite returnType d = .ok offers d') (hchanged : d'.body ≠ d.body) :
    d.body.ResolvesCalls d'.references := by
  obtain ⟨expanded, visits, swept, hr⟩ := rewriting_of_ok h
  obtain ⟨-, hkept | hverified⟩ := (himports.safe_rewrite returnType).of_ok h
  · exact absurd hkept hchanged
  have hresolves := MethodBody.resolvesCalls_of_computeMaxStack hverified.maxStack
  intro id i hreaches hi hop
  obtain ⟨pre, v, post, hsplit, rfl⟩ := hr.exists_split (InstructionList.mem_ids_of_get? hi)
  have hv := Rewriting.mem_of_split hsplit
  obtain ⟨j, hj, hsame⟩ := hr.says_original hv
  cases hi.symm.trans hj
  obtain ⟨hvop, hvoperand⟩ := hsame.op_eq (OpCode.namesMember_of_callsMethod hop)
  have hcalled : ∀ {j : Instruction} {refs : ReferenceTable} {callee : MethodRef},
      j.op = i.op → j.operand = i.operand → j.calledMethod refs = .ok callee →
      i.calledMethod refs = .ok callee := by
    intro j refs callee _ hoperand hcallee
    simp only [Instruction.calledMethod, Instruction.token?, hoperand] at hcallee ⊢
    split at hcallee
    · exact hcallee
    · cases hcallee
  rcases hr.visit_cases hstraight hv with hkept | ⟨-, hcalls, -, -⟩
  · -- The call is still there, and control still comes to it.
    obtain ⟨i', hi', hwoven⟩ := hr.saysSame_woven (hkept.head_eq ▸ hr.mem_woven hv)
    obtain ⟨hop', hoperand'⟩ :=
      (hwoven.trans hsame).op_eq (OpCode.namesMember_of_callsMethod hop)
    obtain ⟨callee, hcallee⟩ :=
      hresolves v.site i' (hr.reaches hstraight hreaches) hi' (hop' ▸ hop)
    exact ⟨callee, hcalled hop' hoperand' hcallee⟩
  · -- The call was replaced, so its method was known then.
    obtain ⟨callee, hcallee⟩ := hcalls (hvop ▸ hop)
    exact ⟨callee, (hr.references_growsTo himports hv).calledMethod_eq_ok
      (hcalled hvop hvoperand hcallee)⟩

end RewriteRule

end CilWeave
