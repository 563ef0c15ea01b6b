import CilWeave.Proofs.Pass.FieldAccess.Building
import CilWeave.Proofs.Renumbering.Rewriting

/-
The rule for field access does not depend on how references are numbered.

It knows a field and a callee by the members their tokens name, and what it builds has
tokens of accessors alone, which it imports on the spot. So with another table of
references it picks the same accesses and builds the same replacements but for the numbers
of the accessors (`FieldRouting.portable_rule`).
-/

namespace CilWeave

open ReferenceTable (FitsTokens)

variable {limit refs refs' : ReferenceTable} {s s' s₁ : Supplies Unit}

namespace Supplies.Alike

theorem scratchLocal {type : TypeSig} {index : UInt16} (h : s.Alike limit s')
    (hs : scratchLocal type s = .ok index s₁) :
    ∃ s₁', Supplies.scratchLocal type s' = .ok index s₁' ∧ s₁.Alike limit s₁' := by
  obtain ⟨⟨scratch, locals⟩, hrequest, rfl⟩ := Edit.within_eq_ok.mp hs
  rw [← h.scratch, ← h.locals] at hrequest
  exact ⟨_, Edit.within_eq_ok.mpr ⟨_, hrequest, rfl⟩, ⟨rfl, rfl, h.memory, h.within⟩⟩

end Supplies.Alike

namespace FieldRouting

variable {r : FieldRouting} {body body' : MethodBody} {site : InstrId}

/-! ## What the rule looks at -/

theorem applies_eq {i i' : Instruction} (h : i.Alike refs refs' i') :
    r.applies refs' i' = r.applies refs i := by
  unfold applies
  rw [h.op]
  rcases h.token?_cases with ⟨hnone, hnone'⟩ | ⟨t, t', ht, ht', hsame⟩
  · rw [hnone, hnone']
  · rw [ht, ht']
    rcases hsame.field_cases with ⟨field, hf, hf'⟩ | ⟨e, e', hf, hf'⟩
    · simp only [hf, hf']
    · simp only [hf, hf']

theorem handsOn_eq (h : body.Alike refs refs' body') (site : InstrId) :
    handsOn body' site refs' = handsOn body site refs := by
  unfold handsOn
  rw [h.code.next?_eq, h.referenced_eq]
  cases body.code.next? site with
  | none => rfl
  | some next =>
    simp only
    rcases h.code.get?_cases next with ⟨hi, hi'⟩ | ⟨i, i', hi, hi', halike⟩
    · rw [hi, hi']
    · rw [hi, hi']
      simp only [halike.op]
      rcases halike.token?_cases with ⟨hnone, hnone'⟩ | ⟨t, t', ht, ht', hsame⟩
      · rw [hnone, hnone']
      · rw [ht, ht']
        rcases hsame.method_cases with ⟨method, hm, hm'⟩ | ⟨e, e', hm, hm'⟩
        · simp only [hm, hm']
        · simp only [hm, hm']

/-! ## What the rule builds -/

theorem portable_callOf (hfits : limit.FitsTokens) (accessor : OpCode × MethodRef) :
    Supplies.Portable limit Instruction.Alike (callOf accessor) := by
  intro s s' s₁ i h hs hgrows
  obtain ⟨t, s₂, himport, hpure⟩ := Edit.bind_eq_ok hs
  cases hpure
  cases himport
  obtain ⟨hsame, hwithin⟩ := h.within.sameMember_intern hfits hgrows
  exact ⟨_, _, Edit.bind_of_ok rfl, ⟨h.locals, h.scratch, h.memory, hwithin⟩, rfl, rfl,
    .token hsame⟩

theorem portable_load (hfits : limit.FitsTokens) (field : FieldRef) :
    Supplies.Portable limit Replacement.Alike (r.load field) := by
  intro s s' s₁ replacement h hs hgrows
  obtain ⟨get, s₂, hget, hpure⟩ := Edit.bind_eq_ok hs
  cases hpure
  obtain ⟨get', s₁', hget', halike, hcall⟩ := portable_callOf hfits _ h hget hgrows
  refine ⟨_, s₁', Edit.bind_of_ok hget', halike, ?_, .nil⟩
  exact .cons (.of_token?_none rfl) (.cons hcall .nil)

theorem portable_store (hfits : limit.FitsTokens) (field : FieldRef) :
    Supplies.Portable limit Replacement.Alike (r.store field) := by
  intro s s' s₁ replacement h hs hgrows
  obtain ⟨value, s₂, hvalue, hrest⟩ := Edit.bind_eq_ok hs
  obtain ⟨set, s₃, hset, hpure⟩ := Edit.bind_eq_ok hrest
  cases hpure
  obtain ⟨s₂', hvalue', h₂⟩ := h.scratchLocal hvalue
  obtain ⟨set', s₁', hset', halike, hcall⟩ := portable_callOf hfits _ h₂ hset hgrows
  refine ⟨_, s₁', (Edit.bind_of_ok hvalue').trans (Edit.bind_of_ok hset'), halike, ?_, .nil⟩
  exact .cons (.of_token?_none rfl) (.cons (.of_token?_none rfl)
    (.cons (.of_token?_none rfl) (.cons hcall .nil)))

theorem portable_address (hfits : limit.FitsTokens) (field : FieldRef) :
    Supplies.Portable limit Replacement.Alike (r.address field) := by
  intro s s' s₁ replacement h hs hgrows
  obtain ⟨value, s₂, hvalue, hrest⟩ := Edit.bind_eq_ok hs
  obtain ⟨get, s₃, hget, hrest⟩ := Edit.bind_eq_ok hrest
  obtain ⟨set, s₄, hset, hpure⟩ := Edit.bind_eq_ok hrest
  cases hpure
  obtain ⟨s₂', hvalue', h₂⟩ := h.scratchLocal hvalue
  -- The setter is imported into the tables that name the getter.
  have hlater := ((extends_callOf _).of_ok hset).references
  obtain ⟨get', s₃', hget', h₃, hgetter⟩ := portable_callOf hfits _ h₂ hget (hlater.trans hgrows)
  obtain ⟨set', s₁', hset', halike, hsetter⟩ := portable_callOf hfits _ h₃ hset hgrows
  have hlater' := ((extends_callOf _).of_ok hset').references
  have hgetter := hgetter.mono hlater hlater'
  refine ⟨_, s₁', (Edit.bind_of_ok hvalue').trans ((Edit.bind_of_ok hget').trans
    (Edit.bind_of_ok hset')), halike, ?_, ?_⟩
  · exact .cons (.of_token?_none rfl) (.cons (.of_token?_none rfl)
      (.cons hgetter (.cons (.of_token?_none rfl) (.cons (.of_token?_none rfl) .nil))))
  · exact .cons (.of_token?_none rfl) (.cons (.of_token?_none rfl) (.cons hsetter .nil))

theorem portable_some {edit : Edit (Supplies Unit) Replacement}
    (hedit : Supplies.Portable limit Replacement.Alike edit) :
    Supplies.Portable limit (fun refs refs' => Option.Rel (Replacement.Alike refs refs'))
      (some <$> edit) := by
  intro s s' s₁ built h hs hgrows
  obtain ⟨replacement, hbuilt, rfl⟩ := Edit.map_eq_ok hs
  obtain ⟨replacement', s₁', hbuilt', halike, hr⟩ := hedit h hbuilt hgrows
  exact ⟨some replacement', s₁', Edit.map_of_ok hbuilt', halike, .some hr⟩

theorem replacement_alike {op : OpCode} {field : FieldRef} {built : Option Replacement}
    (hfits : limit.FitsTokens) (hbody : body.Alike s.references s'.references body')
    (h : s.Alike limit s') (hs : r.replacement body site op field s = .ok built s₁)
    (hgrows : s₁.references.GrowsTo limit) :
    ∃ built' s₁', r.replacement body' site op field s' = .ok built' s₁' ∧ s₁.Alike limit s₁' ∧
      Option.Rel (Replacement.Alike s₁.references s₁'.references) built built' := by
  unfold replacement at hs ⊢
  split at hs
  · exact portable_some (portable_load hfits field) h hs hgrows
  · exact portable_some (portable_store hfits field) h hs hgrows
  · rw [handsOn_eq hbody]
    split at hs
    · rename_i hhands
      rw [if_pos hhands]
      exact portable_some (portable_address hfits field) h hs hgrows
    · rename_i hhands
      cases hs
      rw [if_neg hhands]
      exact ⟨none, s', rfl, h, .none⟩
  · cases hs
    exact ⟨none, s', rfl, h, .none⟩

/-- The rule for field access is the same with any table of references. -/
theorem portable_rule (r : FieldRouting) (hfits : limit.FitsTokens) : r.rule.Portable limit where
  imports := r.onlyExtends_rule.onlyImports
  applies h := applies_eq h
  build {body body' site s s' s₁ built} hbody h hs hgrows := by
    unfold rule MethodBody.instruction at hs ⊢
    simp only at hs ⊢
    rcases hbody.code.get?_cases site with ⟨hi, -⟩ | ⟨i, i', hi, hi', halike⟩
    · rw [hi] at hs
      cases hs
    · rw [hi] at hs
      rw [hi']
      simp only at hs ⊢
      rcases halike.token?_cases with ⟨hnone, -⟩ | ⟨t, t', ht, ht', hsame⟩
      · rw [hnone] at hs
        cases hs
      · rw [ht] at hs
        rw [ht', halike.op]
        simp only at hs ⊢
        rcases hsame.field_cases with ⟨field, hf, hf'⟩ | ⟨e, e', hf, -⟩
        · rw [hf] at hs
          rw [hf']
          exact replacement_alike hfits hbody h hs hgrows
        · rw [hf] at hs
          cases hs

end FieldRouting

end CilWeave
