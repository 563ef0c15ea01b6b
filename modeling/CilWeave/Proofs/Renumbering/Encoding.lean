import CilWeave.Proofs.Encoding.Recoding
import CilWeave.Proofs.Renumbering.Alike

/-
Encoding does not look at the numbers of references.

Of two bodies that are alike, the other one is expanded or compacted where the one is, and
the results are alike again. Each step of the encoding has its lemma: it reads opcodes, the
fit of operands, sizes and targets, which are the same on both sides. The stack analysis
alone looks tokens up, and each side does so in its own table.
-/

namespace CilWeave.MethodBody.Alike

variable {refs refs' : ReferenceTable} {b b' s : MethodBody}

/-! ## Expanding -/

theorem valid (h : Alike refs refs' b b') (hb : b.Valid) : b'.Valid := by
  refine ⟨fun id i' hi' t ht => ?_, fun id i' index hi' hop => ?_, fun handler hmem id hid => ?_⟩
  · rcases h.code.get?_cases id with ⟨-, hnone⟩ | ⟨i, j, hi, hj, halike⟩
    · rw [hi'] at hnone; cases hnone
    · rw [hi'] at hj
      cases hj
      rw [h.contains_eq]
      exact hb.targets id i hi t (halike.targets_eq ▸ ht)
  · rcases h.code.get?_cases id with ⟨-, hnone⟩ | ⟨i, j, hi, hj, halike⟩
    · rw [hi'] at hnone; cases hnone
    · rw [hi'] at hj
      cases hj
      rw [h.locals]
      refine hb.locals id i index hi ?_
      rcases halike.operand.eq_or_token with heq | ⟨t, t', -, ht', -⟩
      · exact heq.symm.trans hop
      · rw [hop] at ht'; cases ht'
  · rw [h.contains_eq]
    exact hb.boundaries handler (h.handlers ▸ hmem) id hid

theorem expandEach : ∀ {ids : List InstrId} {b b' s : MethodBody}, Alike refs refs' b b' →
    expandEach ids b = .ok () s →
    ∃ s', MethodBody.expandEach ids b' = .ok () s' ∧ Alike refs refs' s s'
  | [], b, b', s, h, hs => by
    cases hs
    exact ⟨b', rfl, h⟩
  | id :: rest, b, b', s, h, hs => by
    unfold MethodBody.expandEach at hs ⊢
    rcases h.code.get?_cases id with ⟨hi, hi'⟩ | ⟨i, i', hi, hi', halike⟩
    · rw [hi] at hs
      rw [hi']
      exact expandEach h hs
    · rw [hi] at hs
      rw [hi']
      simp only at hs ⊢
      cases hcheck : i.checkOperand with
      | error e => rw [hcheck] at hs; cases hs
      | ok u =>
        rw [hcheck] at hs
        have hfits := Instruction.checkOperand_eq_ok.mp hcheck
        rw [← halike.fits_eq] at hfits
        rw [Instruction.checkOperand_eq_ok.mpr hfits]
        exact expandEach (h.modifyAt id fun _ _ hi => hi.expanded) hs

theorem expand (h : Alike refs refs' b b') (hs : expand b = .ok () s) :
    ∃ s', MethodBody.expand b' = .ok () s' ∧ Alike refs refs' s s' := by
  unfold MethodBody.expand at hs ⊢
  split at hs
  · cases hs
  · rename_i s₁ heach
    obtain ⟨s', heach', halike⟩ := expandEach h heach
    rw [h.code.ids, heach']
    simp only
    split at hs
    · cases hs
    · rename_i hvalid
      cases hs
      have hvalid' := validate_eq_ok.mpr (halike.valid (validate_eq_ok.mp hvalid))
      rw [hvalid']
      exact ⟨s', rfl, halike⟩

/-! ## Laying out -/

theorem layOutFrom : ∀ {ids : List InstrId} {offset n : UInt32} {b b' s : MethodBody},
    Alike refs refs' b b' → layOutFrom ids offset b = .ok n s →
    ∃ s', MethodBody.layOutFrom ids offset b' = .ok n s' ∧ Alike refs refs' s s'
  | [], offset, _, b, b', _, h, hs => by
    cases hs
    exact ⟨{ b' with codeSize := offset }, rfl, { h with codeSize := rfl }⟩
  | id :: rest, offset, n, b, b', s, h, hs => by
    unfold MethodBody.layOutFrom at hs ⊢
    rcases h.code.get?_cases id with ⟨hi, hi'⟩ | ⟨i, i', hi, hi', halike⟩
    · rw [hi] at hs
      rw [hi']
      exact layOutFrom h hs
    · rw [hi] at hs
      rw [hi']
      simp only at hs ⊢
      rw [halike.size_eq]
      split at hs
      · rename_i hroom
        rw [if_pos hroom]
        exact layOutFrom (h.modifyAt id fun _ _ hi => hi.withOffset offset) hs
      · cases hs

theorem layOut {n : UInt32} (h : Alike refs refs' b b') (hs : layOut b = .ok n s) :
    ∃ s', MethodBody.layOut b' = .ok n s' ∧ Alike refs refs' s s' := by
  unfold MethodBody.layOut at hs ⊢
  rw [h.code.ids]
  exact layOutFrom h hs

/-! ## Shortening branches -/

theorem isShrinkable_eq (h : Alike refs refs' b b') {i i' : Instruction}
    (hi : i.Alike refs refs' i') : b'.isShrinkable i' = b.isShrinkable i := by
  have hsize := hi.size_eq
  obtain ⟨op, operand, offset⟩ := i
  obtain ⟨op', operand', offset'⟩ := i'
  obtain ⟨rfl, rfl, hoperand⟩ := hi
  unfold isShrinkable
  cases hoperand with
  | token => rfl
  | other =>
    -- The distance is between offsets, and those are equal.
    cases operand with
    | target id =>
      simp only
      rcases h.code.get?_cases id with ⟨ht, ht'⟩ | ⟨target, target', ht, ht', htarget⟩
      · rw [ht, ht']
      · rw [ht, ht']
        unfold displacement
        simp only [htarget.offset]
    | _ => rfl

theorem shrinkable_eq (h : Alike refs refs' b b') : b'.shrinkable = b.shrinkable := by
  unfold shrinkable
  refine h.code.filterMap_eq fun id i i' hi => ?_
  simp only [h.isShrinkable_eq hi]

theorem shortened {i i' : Instruction} (h : i.Alike refs refs' i') :
    (shortened i).Alike refs refs' (MethodBody.shortened i') := by
  unfold MethodBody.shortened
  rw [h.op]
  cases i.op.shortBranch? with
  | none => exact h
  | some op => exact ⟨rfl, h.offset, h.operand⟩

theorem shortenBranches : ∀ {rounds : Nat} {b b' s : MethodBody}, Alike refs refs' b b' →
    shortenBranches rounds b = .ok () s →
    ∃ s', MethodBody.shortenBranches rounds b' = .ok () s' ∧ Alike refs refs' s s'
  | 0, b, b', s, h, hs => by
    unfold MethodBody.shortenBranches at hs ⊢
    split at hs
    · cases hs
    · rename_i hlayOut
      cases hs
      obtain ⟨s', hlayOut', halike⟩ := layOut h hlayOut
      rw [hlayOut']
      exact ⟨s', rfl, halike⟩
  | rounds + 1, b, b', s, h, hs => by
    unfold MethodBody.shortenBranches at hs ⊢
    split at hs
    · cases hs
    · rename_i s₁ hlayOut
      obtain ⟨s', hlayOut', halike⟩ := layOut h hlayOut
      rw [hlayOut']
      simp only
      rw [halike.shrinkable_eq]
      split at hs
      · cases hs
        exact ⟨s', rfl, halike⟩
      · exact shortenBranches (halike.foldl_modifyAt (fun _ _ => shortened) s₁.shrinkable) hs

/-! ## Compacting -/

theorem runsAlike (h : Alike refs refs' b b') (returnType : TypeSig) :
    RunsAlike b refs b' refs' returnType where
  ids := h.code.ids
  handlers handler := by rw [h.handlers]
  instruction id i hi := by
    obtain ⟨i', hi', halike⟩ := h.code.get? id i hi
    exact ⟨i', hi', by rw [halike.op], fun t => by rw [halike.targets_eq],
      fun effect => halike.stackEffect_eq_ok⟩

theorem computeMaxStack_eq_ok {returnType : TypeSig} {m : UInt16} (h : Alike refs refs' b b')
    (hm : b.computeMaxStack refs returnType = .ok m) :
    b'.computeMaxStack refs' returnType = .ok m := by
  by_cases hempty : b.code.ids = []
  · have hnone : b.code.isEmpty = true := InstructionList.isEmpty_iff.mpr hempty
    have hnone' : b'.code.isEmpty = true :=
      InstructionList.isEmpty_iff.mpr (h.code.ids.trans hempty)
    unfold computeMaxStack at hm ⊢
    rw [if_pos hnone] at hm
    rw [if_pos hnone']
    exact hm
  · exact computeMaxStack_of_runsAlike (h.runsAlike returnType) hempty hm

theorem compact {returnType : TypeSig} (h : Alike refs refs' b b')
    (hs : compact refs returnType b = .ok () s) :
    ∃ s', MethodBody.compact refs' returnType b' = .ok () s' ∧ Alike refs refs' s s' := by
  unfold MethodBody.compact at hs ⊢
  split at hs
  · cases hs
  · rename_i s₁ hexpand
    obtain ⟨s₁', hexpand', h₁⟩ := h.expand hexpand
    rw [hexpand']
    simp only at hs ⊢
    have hcompacted := h₁.foldl_modifyAt (fun _ _ hi => hi.compacted) s₁.code.ids
    rw [h₁.code.ids]
    split at hs
    · cases hs
    · rename_i s₂ hshorten
      obtain ⟨s₂', hshorten', h₂⟩ := shortenBranches hcompacted hshorten
      rw [hshorten']
      simp only
      split at hs
      · cases hs
      · rename_i m hdepth
        cases hs
        rw [h₂.computeMaxStack_eq_ok hdepth]
        exact ⟨{ s₂' with maxStack := m }, rfl, { h₂ with maxStack := rfl }⟩

end CilWeave.MethodBody.Alike
