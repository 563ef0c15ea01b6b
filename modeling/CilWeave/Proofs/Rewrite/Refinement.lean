import CilWeave.Proofs.Rewrite.Safety
import CilWeave.Proofs.Rewrite.Weave

/-
What a successful rewrite of a method body comes to.

`Rewriting` puts the parts together: the body is expanded, every instruction is visited
once, from the last to the first, and the woven code is compacted, which changes the form
of instructions and nothing they say. The main statement, `rewrite_refines_weave`, says
which instructions a rule is offered and what the code is afterwards.
-/

namespace CilWeave

namespace RewriteRule

variable {σ : Type} {rule : RewriteRule σ} {returnType : TypeSig}

/-- How a rule came to make `d'` of `d`. -/
structure Rewriting (rule : RewriteRule σ) (d d' : Draft σ) (offers : List Offer)
    (expanded : MethodBody) (visits : List (Visit σ)) (swept : Draft σ) : Prop where
  expand : MethodBody.expand d.body = .ok () expanded
  visited : ∃ scratch,
    Visits rule ⟨expanded, d.references, d.memory⟩ .empty visits swept scratch
  entries : visits.map Visit.entry = expanded.code.entries.reverse
  offered : offers = visits.filterMap Visit.offer?
  get? : ∀ v ∈ visits, v.draft.body.code.get? v.site = some v.instruction
  woven : swept.body.code.entries =
    (weave d.body.code.slots.size (visits.reverse.map Visit.toStitch)).code
  handlers : swept.body.handlers = d.body.handlers
  references : d'.references = swept.references
  kept : offers.any Offer.replaced = false → d'.body = d.body
  compacted : offers.any Offer.replaced = true → d'.body.Rephrases swept.body

theorem rewriting_of_ok {d d' : Draft σ} {offers : List Offer}
    (h : rule.rewrite returnType d = .ok offers d') :
    ∃ expanded visits swept, Rewriting rule d d' offers expanded visits swept := by
  obtain ⟨expanded, swept, hexpand, hsweep, hchanged, hkept⟩ := Draft.transact_eq_ok h
  obtain ⟨hmap, -, -⟩ := MethodBody.expand_eq_ok hexpand
  obtain ⟨visits, scratch, hvisits, hentries, hoffers, hgets, hcode, hhandlers⟩ :=
    sweep_eq_ok hsweep
  have hslots : expanded.code.slots.size = d.body.code.slots.size := hmap.slots
  simp only [hslots] at hcode
  have hhandlers := hhandlers.trans hmap.handlers
  cases hany : offers.any Offer.replaced with
  | true =>
    obtain ⟨body, hcompacted, rfl⟩ := hchanged hany
    obtain ⟨-, hsame⟩ := MethodBody.compact_eq_ok hcompacted
    exact ⟨expanded, visits, swept, hexpand, ⟨scratch, hvisits⟩, hentries, hoffers, hgets, hcode,
      hhandlers, rfl, fun hnot => (nomatch hany.symm.trans hnot), fun _ => hsame⟩
  | false =>
    obtain rfl := hkept hany
    exact ⟨expanded, visits, swept, hexpand, ⟨scratch, hvisits⟩, hentries, hoffers, hgets, hcode,
      hhandlers, rfl, fun _ => rfl, fun hyes => nomatch hany.symm.trans hyes⟩

namespace Rewriting

variable {d d' swept : Draft σ} {offers : List Offer} {expanded : MethodBody}
  {visits : List (Visit σ)}

theorem map_site (h : Rewriting rule d d' offers expanded visits swept) :
    visits.map (fun v => v.site) = d.body.code.ids.reverse := by
  obtain ⟨hmap, -, -⟩ := MethodBody.expand_eq_ok h.expand
  have hsites : visits.map (fun v => v.site) = (visits.map Visit.entry).map Prod.fst := by
    rw [List.map_map]; rfl
  rw [hsites, h.entries, List.map_reverse, InstructionList.map_fst_entries, hmap.ids]

theorem get?_expanded (h : Rewriting rule d d' offers expanded visits swept) {v : Visit σ}
    (hv : v ∈ visits) : expanded.code.get? v.site = some v.instruction := by
  have hmem : v.entry ∈ expanded.code.entries := by
    rw [← List.mem_reverse, ← h.entries]
    exact List.mem_map_of_mem hv
  exact InstructionList.mem_entries.mp hmem

theorem says_original (h : Rewriting rule d d' offers expanded visits swept) {v : Visit σ}
    (hv : v ∈ visits) :
    ∃ i, d.body.code.get? v.site = some i ∧ v.instruction.SaysSame i := by
  obtain ⟨hmap, -, -⟩ := MethodBody.expand_eq_ok h.expand
  obtain ⟨i, hi, heq⟩ := hmap.of_get? (h.get?_expanded hv)
  exact ⟨i, hi, heq ▸ i.saysSame_expanded⟩

theorem entries_of_kept (h : Rewriting rule d d' offers expanded visits swept)
    (hnone : offers.any Offer.replaced = false) :
    swept.body.code.entries = expanded.code.entries := by
  have hkept : ∀ s ∈ visits.reverse.map Visit.toStitch, s.IsKept := by
    intro s hs r ho
    obtain ⟨v, hv, rfl⟩ := List.mem_map.mp hs
    have hoffer : (⟨v.site, true⟩ : Offer) ∈ offers := by
      rw [h.offered]
      exact List.mem_filterMap.mpr ⟨v, List.mem_reverse.mp hv, by simp only [Visit.offer?, ho]⟩
    have hany : offers.any Offer.replaced = true := List.any_eq_true.mpr ⟨_, hoffer, rfl⟩
    rw [hnone] at hany
    cases hany
  rw [h.woven, weave_of_kept hkept, ← List.reverse_reverse expanded.code.entries, ← h.entries,
    List.map_map, List.map_reverse]
  rfl

theorem ids_eq (h : Rewriting rule d d' offers expanded visits swept) :
    d'.body.code.ids = swept.body.code.ids := by
  cases hany : offers.any Offer.replaced with
  | true => exact (h.compacted hany).ids
  | false =>
    obtain ⟨hmap, -, -⟩ := MethodBody.expand_eq_ok h.expand
    rw [h.kept hany, ← hmap.ids, ← InstructionList.map_fst_entries swept.body.code,
      h.entries_of_kept hany, InstructionList.map_fst_entries]

/-- Every instruction of the result says what was woven at its handle. -/
theorem saysSame_woven (h : Rewriting rule d d' offers expanded visits swept)
    {e : InstrId × Instruction} (he : e ∈ swept.body.code.entries) :
    ∃ i, d'.body.code.get? e.1 = some i ∧ i.SaysSame e.2 := by
  cases hany : offers.any Offer.replaced with
  | true =>
    have hswept := InstructionList.mem_entries.mp he
    have hin : e.1 ∈ d'.body.code.ids := by
      rw [(h.compacted hany).ids]
      exact InstructionList.mem_ids_of_get? hswept
    obtain ⟨i, hi⟩ := InstructionList.get?_of_mem hin
    exact ⟨i, hi, (h.compacted hany).same e.1 e.2 i hswept hi⟩
  | false =>
    obtain ⟨hmap, -, -⟩ := MethodBody.expand_eq_ok h.expand
    rw [h.entries_of_kept hany] at he
    obtain ⟨i, hi, heq⟩ := hmap.of_get? (InstructionList.mem_entries.mp he)
    rw [h.kept hany, heq]
    exact ⟨i, hi, i.saysSame_expanded.symm⟩

theorem mem_woven (h : Rewriting rule d d' offers expanded visits swept) {v : Visit σ}
    (hv : v ∈ visits) : (v.site, v.head) ∈ swept.body.code.entries := by
  have hstitch : v.toStitch ∈ visits.reverse.map Visit.toStitch :=
    List.mem_map_of_mem (List.mem_reverse.mpr hv)
  rw [h.woven]
  exact (sublist_weave d.body.code.slots.size (visits.reverse.map Visit.toStitch)).subset
    (List.mem_map_of_mem hstitch)

theorem ids_original (h : Rewriting rule d d' offers expanded visits swept) :
    d.body.code.ids = visits.reverse.map fun v => v.site := by
  rw [List.map_reverse, h.map_site, List.reverse_reverse]

theorem sublist_ids (h : Rewriting rule d d' offers expanded visits swept) :
    d.body.code.ids.Sublist d'.body.code.ids := by
  have hsub := (sublist_weave d.body.code.slots.size (visits.reverse.map Visit.toStitch)).map
    Prod.fst
  rw [List.map_map, List.map_map] at hsub
  rw [h.ids_eq, InstructionList.ids_eq_of_entries h.woven, h.ids_original]
  exact hsub

theorem handlers_eq (h : Rewriting rule d d' offers expanded visits swept) :
    d'.body.handlers = d.body.handlers := by
  cases hany : offers.any Offer.replaced with
  | true => exact (h.compacted hany).handlers.trans h.handlers
  | false => rw [h.kept hany]

end Rewriting

theorem count_offers (offers : List Offer) :
    Offer.replacedCount offers + Offer.missedCount offers = offers.length := by
  unfold Offer.replacedCount Offer.missedCount
  induction offers with
  | nil => rfl
  | cons o rest ih =>
    rw [List.countP_cons, List.countP_cons, List.length_cons, ← ih]
    cases o.replaced <;> simp <;> omega

theorem map_site_offers (visits : List (Visit σ)) :
    ((visits.filterMap Visit.offer?).map Offer.site).Sublist (visits.map fun v => v.site) := by
  induction visits with
  | nil => exact List.Sublist.refl _
  | cons v rest ih =>
    rw [List.filterMap_cons, List.map_cons]
    cases ho : v.offer? with
    | none => exact ih.cons _
    | some o =>
      have hsite : o.site = v.site := by
        unfold Visit.offer? at ho
        split at ho <;> cases ho <;> rfl
      rw [List.map_cons, hsite]
      exact ih.cons_cons _

/-- Every visit of a run leaves a draft, as the rule would have it. -/
theorem leaves_of_mem {d d' : Draft σ} {scratch scratch' : ScratchLocals}
    {visits : List (Visit σ)} (h : Visits rule d scratch visits d' scratch') {v : Visit σ}
    (hv : v ∈ visits) : ∃ d s, v.Leaves rule d s := by
  induction h with
  | nil => cases hv
  | cons hleaves _ ih =>
    rcases List.mem_cons.mp hv with rfl | hv
    · exact ⟨_, _, hleaves⟩
    · exact ih hv

/-- A rewrite that succeeds offers the rule every instruction of the expanded body that it
applies to when its turn comes, from the last to the first and each of them once; what is
left is the weave of what became of the instructions, and says what was woven. -/
theorem rewrite_refines_weave (rule : RewriteRule σ) (returnType : TypeSig) (d d' : Draft σ)
    (offers : List Offer) (h : rule.rewrite returnType d = .ok offers d') :
    ∃ expanded visits swept scratch, MethodBody.expand d.body = .ok () expanded ∧
      -- There is one visit for each instruction, from the last to the first,
      Visits rule ⟨expanded, d.references, d.memory⟩ .empty visits swept scratch ∧
      visits.map Visit.entry = expanded.code.entries.reverse ∧
      -- and an offer if the rule applies at that time.
      offers = visits.filterMap Visit.offer? ∧
      (∀ v ∈ visits, v.offer?.isSome =
        rule.applies v.draft.memory v.draft.references v.instruction) ∧
      (offers.map Offer.site).Sublist d.body.code.ids.reverse ∧
      Offer.replacedCount offers + Offer.missedCount offers = offers.length ∧
      -- The code is what is woven, in another form where it was compacted.
      (let woven := (weave d.body.code.slots.size (visits.reverse.map Visit.toStitch)).code
      d'.body.code.ids = woven.map Prod.fst ∧
        (∀ e ∈ woven, ∃ i, d'.body.code.get? e.1 = some i ∧ i.SaysSame e.2)) ∧
      -- What was there stays in its order, what is new has a slot of its own,
      d.body.code.ids.Sublist d'.body.code.ids ∧
      (∀ id ∈ d'.body.code.ids, id ∈ d.body.code.ids ∨
        ∃ n, d.body.code.slots.size ≤ n ∧ id = InstrId.ofSlot n) ∧
      -- and what was not replaced says what it said.
      (∀ v ∈ visits, v.IsKept → ∃ i i', d.body.code.get? v.site = some i ∧
        d'.body.code.get? v.site = some i' ∧ i'.SaysSame i) ∧
      d'.body.handlers = d.body.handlers ∧
      (offers.any Offer.replaced = false → d'.body = d.body) := by
  obtain ⟨expanded, visits, swept, hr⟩ := rewriting_of_ok h
  obtain ⟨scratch, hvisits⟩ := hr.visited
  have hsites : d.body.code.ids = (visits.reverse.map Visit.toStitch).map Stitch.site := by
    rw [hr.ids_original, List.map_map]
    rfl
  have hwoven : swept.body.code.ids =
      (weave d.body.code.slots.size (visits.reverse.map Visit.toStitch)).code.map Prod.fst :=
    InstructionList.ids_eq_of_entries hr.woven
  refine ⟨expanded, visits, swept, scratch, hr.expand, hvisits, hr.entries, hr.offered, ?_, ?_,
    count_offers offers, ⟨hr.ids_eq.trans hwoven, ?_⟩, hr.sublist_ids, ?_, ?_, hr.handlers_eq,
    hr.kept⟩
  · intro v hv
    obtain ⟨_, _, hleaves⟩ := leaves_of_mem hvisits hv
    rw [hleaves.offer?_isSome, appliesAt, hr.get? v hv]
  · rw [hr.offered, ← hr.map_site]
    exact map_site_offers visits
  · intro e he
    exact hr.saysSame_woven (hr.woven ▸ he)
  · intro id hid
    rw [hr.ids_eq, hwoven] at hid
    obtain ⟨e, he, rfl⟩ := List.mem_map.mp hid
    rcases mem_weave he with ⟨s, hs, rfl⟩ | hnew
    · exact .inl (hsites ▸ List.mem_map_of_mem hs)
    · exact .inr hnew
  · intro v hv hkept
    obtain ⟨i, hi, hsame⟩ := hr.says_original hv
    have hmem : (v.site, v.instruction) ∈ swept.body.code.entries := by
      rw [← hkept.head_eq]
      exact hr.mem_woven hv
    obtain ⟨i', hi', hsame'⟩ := hr.saysSame_woven hmem
    exact ⟨i, i', hi, hi', hsame'.trans hsame⟩

/-- A rule that applies to what it puts in: each `nop` becomes two, and one more behind the
instruction that comes next. -/
def padding : RewriteRule Unit where
  applies _ _ i := i.op == .nop
  build _ _ s := .ok (some ⟨[.plain .nop, .plain .nop], [.plain .nop]⟩) s

/-- A body with two instructions the rule applies to, and no references. -/
def unpadded : Draft Unit where
  body := { MethodBody.empty with
    code := (InstructionList.ofList [.plain .nop, .plain .nop, .plain .ret]).toOption.getD .empty }
  references := .empty
  memory := ()

theorem rewrite_padding : ∃ offers d', padding.rewrite .void unpadded = .ok offers d' ∧
    Offer.replacedCount offers = 2 ∧ (offers.map Offer.site).Sublist [⟨2⟩, ⟨1⟩, ⟨0⟩] ∧
    d'.body.code.ids = [⟨0⟩, ⟨5⟩, ⟨1⟩, ⟨6⟩, ⟨3⟩, ⟨2⟩, ⟨4⟩] := by
  obtain ⟨offers, d', h, hcount, hids⟩ : ∃ offers d',
      padding.rewrite .void unpadded = .ok offers d' ∧ Offer.replacedCount offers = 2 ∧
        d'.body.code.ids = [⟨0⟩, ⟨5⟩, ⟨1⟩, ⟨6⟩, ⟨3⟩, ⟨2⟩, ⟨4⟩] := ⟨_, _, rfl, rfl, rfl⟩
  obtain ⟨_, _, _, _, _, _, _, _, _, hsites, _⟩ :=
    rewrite_refines_weave padding .void unpadded d' offers h
  exact ⟨offers, d', h, hcount, hsites, hids⟩

end RewriteRule

end CilWeave
