import CilWeave.Proofs.Execution.Rerouting
import CilWeave.Proofs.Pass.FieldAccess.Building
import CilWeave.Proofs.Rewrite.Context

/-
How a body does what it did after its field access was routed.

Each visit that led to a replacement is seen as what the rule built there (`built`), with
the references and locals there are at the end. From it follows the route of its
instruction (`route`). That no jump leads to a call that is handed an address
(`not_wrapped_of_referenced`) is what the rule checked when it built the replacement: the
targets and handlers of the body were the same then.
-/

namespace CilWeave

open Execution (Access Accesses IsScratch Route Rerouted Stands TakesAddress World WritesBack)

namespace Instruction

theorem targets_of_token {i : Instruction} {t : Token} (h : i.operand = .token t) :
    i.targets = [] := by
  unfold targets
  rw [h]
  rfl

theorem said_of_field {i : Instruction} (h : i.op = .ldfld ∨ i.op = .stfld ∨ i.op = .ldflda) :
    i.said = .of i.op i.operand := by
  obtain ⟨op, operand, offset⟩ := i
  simp only at h
  rcases h with rfl | rfl | rfl <;> rfl

theorem said_of_call {i : Instruction} (h : i.op.isCall = true) :
    i.said = .of i.op i.operand := by
  obtain ⟨op, operand, offset⟩ := i
  rcases OpCode.of_isCall h with hop | hop
  · simp only at hop
    rw [hop]
    rfl
  · simp only at hop
    rw [hop]
    rfl

end Instruction

namespace FieldRouting

variable {δ ρ : Type}

/-- The tracked fields among some references are fields of objects, and their accessors
access them by name. -/
def AccessedBy (r : FieldRouting) (w : World δ ρ) (refs : ReferenceTable) : Prop :=
  ∀ field, .field field ∈ refs.toList → r.tracks field = true →
    w.OnObjects field ∧ w.access? (r.accessors.getter field.fieldType).2 = some .read ∧
      w.access? (r.accessors.setter field.fieldType).2 = some .write

theorem accesses_callOf {w : World δ ρ} {accessor : OpCode × MethodRef} {access : Access}
    {s s' : Supplies Unit} {i : Instruction} {later : ReferenceTable}
    (h : callOf accessor s = .ok i s') (hcall : accessor.1.isCall = true)
    (haccess : w.access? accessor.2 = some access) (hgrows : s'.references.GrowsTo later)
    (hfits : later.FitsTokens) : i.said = i ∧ Accesses w later access i := by
  obtain ⟨hop, ⟨t, hi⟩, hcalled⟩ := callOf_eq_ok h
  have hsaid : i.said = i := by
    rw [Instruction.said_of_call (hop ▸ hcall), hi]
    rfl
  exact ⟨hsaid, hop ▸ hcall, accessor.2, hcalled later hgrows hfits, haccess⟩

theorem tracks_of_applies {r : FieldRouting} {refs : ReferenceTable} {i : Instruction} {t : Token}
    {field : FieldRef} (h : r.applies refs i = true) (hoperand : i.operand = .token t)
    (hfield : refs.field t = .ok field) : r.tracks field = true := by
  unfold applies at h
  rw [Instruction.token?_eq_some.mpr hoperand, Bool.and_eq_true] at h
  have htracks := h.2
  simp only [hfield] at htracks
  exact htracks

section Rewritten

variable {r : FieldRouting} {d d' swept : Draft Unit} {offers : List Offer}
  {expanded : MethodBody} {visits pre post : List (Visit Unit)} {u v : Visit Unit}

/-- A visit that led to a replacement: what the rule built there, as seen from the end. -/
structure Built (r : FieldRouting) (d d' : Draft Unit) (v : Visit Unit) (t : Token)
    (field : FieldRef) (s : Supplies Unit) (replacement : Replacement) : Prop where
  named : v.instruction.operand = .token t
  resolved : v.draft.references.field t = .ok field
  tracks : r.tracks field = true
  builds : r.Builds v.draft.body v.site v.instruction.op field (v.draft.supplies v.scratch) s
    replacement
  reserved : (v.draft.supplies v.scratch).Reserved d.body.locals.size
  before : v.draft.references.GrowsTo d'.references
  after : s.references.GrowsTo d'.references
  locals : s.locals.size ≤ d'.body.locals.size

variable (h : RewriteRule.Rewriting r.rule d d' offers expanded visits swept)
include h

theorem extends_swept : d.references.GrowsTo d'.references ∧
    d.body.locals.toList <+: d'.body.locals.toList := by
  obtain ⟨hmap, -, -⟩ := MethodBody.expand_eq_ok h.expand
  obtain ⟨scratch, hvisits⟩ := h.visited
  have hextends := (hvisits.extends r.onlyExtends_rule).1
  refine ⟨h.references ▸ hextends.references, ?_⟩
  cases hany : offers.any Offer.replaced with
  | false =>
    have hkept : d'.body.locals = d.body.locals := congrArg MethodBody.locals (h.kept hany)
    exact ⟨[], by rw [List.append_nil, hkept]⟩
  | true =>
    rw [(h.compacted hany).locals, ← hmap.locals]
    exact hextends.locals

theorem built (hv : v ∈ visits) {replacement : Replacement}
    (ho : v.outcome = .replaced replacement) :
    ∃ t field s, Built r d d' v t field s replacement := by
  obtain ⟨hmap, -, -⟩ := MethodBody.expand_eq_ok h.expand
  obtain ⟨scratch, hvisits⟩ := h.visited
  obtain ⟨hbefore, left, rest, hleaves, hafter⟩ :=
    (hvisits.extends r.onlyExtends_rule).2 v hv
  have hreserved := hbefore.reserved d.body.locals.size
    ⟨Nat.le_of_eq (congrArg Array.size hmap.locals).symm, fun e he => absurd he List.not_mem_nil⟩
  have hlocals : d'.body.locals = swept.body.locals := by
    refine (h.compacted ?_).locals
    rw [h.offered, List.any_eq_true]
    exact ⟨⟨v.site, true⟩, List.mem_filterMap.mpr ⟨v, hv, by simp only [Visit.offer?, ho]⟩, rfl⟩
  have hvisit := hleaves.extends r.onlyExtends_rule
  -- Only the third way to leave a visit is one with a replacement.
  cases hleaves with
  | passed ho' => rw [ho] at ho'; cases ho'
  | declined ho' => rw [ho] at ho'; cases ho'
  | @replaced r' s body ho' happlies hbuild hreplace =>
    rw [ho] at ho'
    cases ho'
    obtain ⟨i, t, field, hi, hoperand, hfield, hbuilds⟩ := rule_eq_ok hbuild
    have hget := h.get? v hv
    rw [hget] at hi
    cases hi
    have htracks : r.tracks field = true := by
      unfold RewriteRule.appliesAt at happlies
      rw [hget] at happlies
      exact tracks_of_applies happlies hoperand hfield
    have hsize : s.locals.size ≤ d'.body.locals.size := by
      rw [hlocals]
      have hle := hafter.size_le
      have heq : body.locals = s.locals := (MethodBody.sameApart_replace hreplace).locals
      unfold Draft.supplies at hle
      simp only [heq] at hle
      exact hle
    refine ⟨t, field, s, hoperand, hfield, htracks, hbuilds, hreserved, ?_, ?_, hsize⟩
    · rw [h.references]
      exact (hvisit.trans hafter).references
    · rw [h.references]
      exact hafter.references

theorem op_head_ne (hv : v ∈ visits) {replacement : Replacement}
    (ho : v.outcome = .replaced replacement) : v.head.said.op ≠ v.instruction.said.op := by
  obtain ⟨t, field, s, hbuilt⟩ := built h hv ho
  cases hbuilt.builds with
  | load hop =>
    rw [Instruction.said_of_field (.inl hop), (Stitch.of_replaced ho).1, hop]
    exact nofun
  | store hop =>
    rw [Instruction.said_of_field (.inr (.inl hop)), (Stitch.of_replaced ho).1, hop]
    exact nofun
  | address hop =>
    rw [Instruction.said_of_field (.inr (.inr hop)), (Stitch.of_replaced ho).1, hop]
    exact nofun

theorem exists_op_ne (hcount : 0 < Offer.replacedCount offers) :
    ∃ id i i', d.body.code.get? id = some i ∧ d'.body.code.get? id = some i' ∧
      i'.said.op ≠ i.said.op := by
  obtain ⟨o, ho, hreplaced⟩ := List.countP_pos_iff.mp hcount
  rw [h.offered] at ho
  obtain ⟨v, hv, hoffer⟩ := List.mem_filterMap.mp ho
  unfold Visit.offer? at hoffer
  split at hoffer
  · cases hoffer
  · cases hoffer
    cases hreplaced
  · rename_i replacement houtcome
    obtain ⟨i, hi, hsame⟩ := h.saysSame_woven (h.mem_woven hv)
    obtain ⟨i', hi', hsame'⟩ := h.says_original hv
    refine ⟨v.site, i', i, hi', hi, ?_⟩
    rw [Instruction.saysSame_iff.mp hsame, ← Instruction.saysSame_iff.mp hsame']
    exact op_head_ne h hv houtcome

theorem isKept_of_call (hv : v ∈ visits) (hop : v.head.op = .call) : v.toStitch.IsKept := by
  intro replacement ho
  obtain ⟨t, field, s, hbuilt⟩ := built h hv ho
  have hhead : v.head.op ≠ .call := by
    unfold Stitch.head
    rw [ho]
    cases hbuilt.builds <;> simp only <;> exact nofun
  exact hhead hop

/-- The call that is handed an address, when that was checked and at the end. -/
theorem of_handsOn_at (hsplit : visits.reverse = pre ++ u :: post)
    (hhands : handsOn u.draft.body u.site u.draft.references = true) :
    ∃ v rest t callee, post = v :: rest ∧ v.toStitch.IsKept ∧ v.instruction.op = .call ∧
      v.instruction.operand = .token t ∧ u.draft.references.method t = .ok callee ∧
      TakesAddress callee ∧ v.site ∉ u.draft.body.referenced := by
  obtain ⟨hentries, -⟩ := h.entries_at hsplit
  obtain ⟨y, i, t, callee, hy, hi, hop, hoperand, hcallee, htakes, hnot⟩ := of_handsOn hhands
  have hids := InstructionList.ids_eq_of_entries hentries
  rw [List.map_append, List.map_cons] at hids
  have hnext : u.draft.body.code.next? u.site = _ := InstructionList.next?_of_split hids
  rw [hnext] at hy
  -- Behind the visited instruction is what is woven of the others, the next one first.
  cases post with
  | nil => cases hy
  | cons v rest =>
    rw [List.map_cons, weave_cons, List.map_cons] at hy
    cases hy
    have hget : u.draft.body.code.get? v.site = some v.head :=
      InstructionList.get?_of_entries hentries (e := (v.site, v.head)) (by
        rw [List.map_cons, weave_cons]
        simp)
    rw [hget] at hi
    cases hi
    have hv : v ∈ visits := by
      rw [← List.mem_reverse, hsplit]
      simp
    have hkept := isKept_of_call h hv hop
    rw [hkept.head_eq] at hop hoperand
    exact ⟨v, rest, t, callee, rfl, hkept, hop, hoperand, hcallee, htakes, hnot⟩

/-- What the method refers to, the body referred to at every visit. -/
theorem mem_referenced (hsplit : visits.reverse = pre ++ u :: post) {y : InstrId}
    (hy : (∃ x ∈ visits, y ∈ x.instruction.targets) ∨
      ∃ handler ∈ d.body.handlers, y ∈ handler.boundaries) :
    y ∈ u.draft.body.referenced := by
  obtain ⟨hentries, hhandlers⟩ := h.entries_at hsplit
  unfold MethodBody.referenced
  rw [List.mem_append, List.mem_flatMap, List.mem_flatMap]
  rcases hy with ⟨x, hx, hy⟩ | ⟨handler, hmem, hy⟩
  · refine .inl ⟨x.instruction, ?_, hy⟩
    -- An instruction with a target was not replaced.
    have hkept : x.toStitch.IsKept := by
      intro replacement ho
      obtain ⟨t, field, s, hbuilt⟩ := built h hx ho
      rw [Instruction.targets_of_token hbuilt.named] at hy
      cases hy
    have hin : (x.site, x.instruction) ∈ u.draft.body.code.entries := by
      rw [hentries, List.mem_append, List.mem_cons]
      rw [← List.mem_reverse, hsplit, List.mem_append, List.mem_cons] at hx
      rcases hx with hx | rfl | hx
      · exact .inl (List.mem_map_of_mem hx)
      · exact .inr (.inl rfl)
      · refine .inr (.inr ?_)
        have hstitch := List.mem_map_of_mem (f := fun s : Stitch => (s.site, s.head))
          (List.mem_map_of_mem (f := Visit.toStitch) hx)
        rw [← hkept.head_eq]
        exact (sublist_weave d.body.code.slots.size _).subset hstitch
    exact InstructionList.mem_instructions.mpr
      ⟨x.site, InstructionList.get?_of_entries rfl hin⟩
  · exact .inr ⟨handler, hhandlers ▸ hmem, hy⟩

theorem handsOn_of_trailer (hu : u ∈ visits) (htrailer : u.trailer ≠ []) :
    handsOn u.draft.body u.site u.draft.references = true := by
  rcases u.toStitch.kept_or_replaced with hkept | ⟨replacement, ho⟩
  · exact absurd hkept.trailer_eq htrailer
  · obtain ⟨t, field, s, hbuilt⟩ := built h hu ho
    have hempty : replacement.trailer = [] → u.trailer = [] := by
      intro hnil
      unfold Stitch.trailer
      rw [ho]
      split
      · rename_i heq
        cases heq
        exact hnil
      · rfl
    cases hbuilt.builds with
    | load => exact absurd (hempty rfl) htrailer
    | store => exact absurd (hempty rfl) htrailer
    | address _ hhands => exact hhands

/-- Nothing the method refers to is handed an address. -/
theorem not_wrapped_of_referenced {y : InstrId}
    (hy : (∃ x ∈ visits, y ∈ x.instruction.targets) ∨
      ∃ handler ∈ d.body.handlers, y ∈ handler.boundaries) : ¬ Wrapped visits.reverse y := by
  rintro ⟨pre, u, v, post, hsplit, htrailer, rfl⟩
  have hu : u ∈ visits := RewriteRule.Rewriting.mem_of_split hsplit
  obtain ⟨v', rest, _, _, hpost, -, -, -, -, -, hnot⟩ :=
    of_handsOn_at h hsplit (handsOn_of_trailer h hu htrailer)
  cases hpost
  exact hnot (mem_referenced h hsplit hy)

/-! ## Routes -/

variable {w : World δ ρ} (hw : r.AccessedBy w d'.references)
  (hfits : d'.references.FitsTokens)

theorem route_kept (hsplit : visits.reverse = pre ++ v :: post)
    (hnot : ¬ Wrapped visits.reverse v.site) (hkept : v.toStitch.IsKept) :
    Route w d.body d'.body d'.references (Wrapped visits.reverse) v.site v.instruction.said := by
  have hv : v ∈ visits := RewriteRule.Rewriting.mem_of_split hsplit
  have hfetch := h.fetch?_woven (h.mem_woven hv)
  rw [hkept.head_eq] at hfetch
  refine .kept hfetch fun y hy => ?_
  obtain ⟨hstands, hnext⟩ := h.stands_next hsplit hnot hy
  rw [hkept.rest_eq] at hstands
  cases hstands with
  | cons _ hy' hlast =>
    cases hlast
    exact ⟨hy', hnext hkept.trailer_eq⟩

include hw hfits

/-- The call that is handed an address writes back what it is left with. -/
theorem writesBack (hsplit : visits.reverse = pre ++ v :: post) {t : Token} {field : FieldRef}
    {s s₂ : Supplies Unit} {replacement : Replacement} {value : UInt16} {set : Instruction}
    (hbuilt : Built r d d' v t field s replacement)
    (hhands : handsOn v.draft.body v.site v.draft.references = true)
    (hset : callOf (r.accessors.setter field.fieldType) s₂ = .ok set s)
    (htrailer : v.trailer = [.ldstr field.name, .ldloc value, set]) :
    ∃ y call method, d.body.code.next? v.site = some y ∧
      WritesBack w d.body d'.body d'.references (Wrapped visits.reverse) y field.name value call
        set method := by
  obtain ⟨next, rest, t', callee, rfl, hkept, hop, hoperand, hcallee, htakes, -⟩ :=
    of_handsOn_at h hsplit hhands
  have hmem := ReferenceTable.mem_of_field_eq_ok (hbuilt.before.field_eq_ok hbuilt.resolved)
  obtain ⟨hsetSaid, hwrites⟩ := accesses_callOf hset (Accessors.isCall_choose _ _ _)
    (hw field hmem hbuilt.tracks).2.2 hbuilt.after hfits
  have hnext : next ∈ visits := by
    rw [← List.mem_reverse, hsplit]
    simp
  have hsaid : next.instruction.said = .of .call (.token t') := by
    have hcall : next.instruction.op.isCall = true := by rw [hop]; rfl
    rw [Instruction.said_of_call hcall, hop, hoperand]
  refine ⟨next.site, next.instruction.said, callee, h.next?_original hsplit,
    h.fetch?_original hnext, by rw [hsaid]; rfl, ?_, htakes, hwrites, fun z hz => ?_⟩
  · rw [hsaid]
    exact Instruction.calledMethod_of_method rfl (hbuilt.before.method_eq_ok hcallee)
  · obtain ⟨hstands, hnot⟩ := h.stands_trailer hsplit hkept hz
    rw [htrailer] at hstands
    refine ⟨?_, hnot⟩
    have hmap : (next.instruction :: [.ldstr field.name, .ldloc value, set]).map
        Instruction.said = [next.instruction.said, .ldstr field.name, .ldloc value, set.said] := rfl
    rw [hmap, hsetSaid] at hstands
    exact hstands

/-- Every instruction that is not handed an address has its route. -/
theorem route (hsplit : visits.reverse = pre ++ v :: post)
    (hnot : ¬ Wrapped visits.reverse v.site) :
    Route w d.body d'.body d'.references (Wrapped visits.reverse) v.site v.instruction.said := by
  have hv : v ∈ visits := RewriteRule.Rewriting.mem_of_split hsplit
  rcases v.toStitch.kept_or_replaced with hkept | ⟨replacement, ho⟩
  · exact route_kept h hsplit hnot hkept
  obtain ⟨t, field, s, hbuilt⟩ := built h (RewriteRule.Rewriting.mem_of_split hsplit) ho
  have hnamed := hbuilt.named
  have hfield := hbuilt.before.field_eq_ok hbuilt.resolved
  obtain ⟨hobjects, hget, hset⟩ := hw field (ReferenceTable.mem_of_field_eq_ok hfield) hbuilt.tracks
  -- Scratch locals are only added, so one that was asked for is there at the end.
  have scratch : ∀ {value : UInt16} {s₁ : Supplies Unit},
      Supplies.scratchLocal field.fieldType (v.draft.supplies v.scratch) = .ok value s₁ →
      s₁.Extends s → IsScratch value d.body.locals.size d'.body.locals.size :=
    fun hvalue hextends => (Supplies.isScratch_scratchLocal hvalue hbuilt.reserved).mono
      (Nat.le_trans hextends.size_le hbuilt.locals)
  cases hbuilt.builds with
  | @load get hop hcall =>
    obtain ⟨hsaid, hreads⟩ := accesses_callOf hcall (Accessors.isCall_choose _ _ _) hget
      hbuilt.after hfits
    rw [Instruction.said_of_field (.inl hop)]
    refine .load hop hnamed hfield hobjects hreads fun y hy => ?_
    obtain ⟨hstands, hnext⟩ := h.stands_replaced hsplit hnot ho hy
    have hcode :
        [.ldstr field.name, get].map Instruction.said = [.ldstr field.name, get.said] := rfl
    rw [hcode, hsaid] at hstands
    exact ⟨hstands, hnext rfl⟩
  | @store value set s₁ hop hvalue hcall =>
    obtain ⟨hsaid, hwrites⟩ := accesses_callOf hcall (Accessors.isCall_choose _ _ _) hset
      hbuilt.after hfits
    rw [Instruction.said_of_field (.inr (.inl hop))]
    refine .store hop hnamed hfield hobjects hwrites
      (scratch hvalue ((extends_callOf _).of_ok hcall)) fun y hy => ?_
    obtain ⟨hstands, hnext⟩ := h.stands_replaced hsplit hnot ho hy
    have hcode : [.stloc value, .ldstr field.name, .ldloc value, set].map Instruction.said =
        [.stloc value, .ldstr field.name, .ldloc value, set.said] := rfl
    rw [hcode, hsaid] at hstands
    exact ⟨hstands, hnext rfl⟩
  | @address value get set s₁ s₂ hop hhands hvalue hcall hcall' =>
    have hextends := (extends_callOf _).of_ok hcall'
    obtain ⟨hsaid, hreads⟩ := accesses_callOf hcall (Accessors.isCall_choose _ _ _) hget
      (hextends.references.trans hbuilt.after) hfits
    obtain ⟨y, call, method, hy, hback⟩ := writesBack h hw hfits hsplit hbuilt hhands hcall'
      (Stitch.of_replaced ho).2.2
    rw [Instruction.said_of_field (.inr (.inr hop))]
    refine .address hop hnamed hfield hobjects hreads
      (scratch hvalue (((extends_callOf _).of_ok hcall).trans hextends)) hy ?_ hback
    obtain ⟨hstands, -⟩ := h.stands_replaced hsplit hnot ho hy
    have hcode : [.plain .dup, .ldstr field.name, get, .stloc value, .ldloca value].map
        Instruction.said =
          [.plain .dup, .ldstr field.name, get.said, .stloc value, .ldloca value] := rfl
    rw [hcode, hsaid] at hstands
    exact hstands

end Rewritten

end FieldRouting

end CilWeave
