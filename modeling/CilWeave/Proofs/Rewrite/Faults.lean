import CilWeave.Proofs.Rewrite.Safety

/-
How far the faults of an edit reach.

Everything that can go wrong while a body is expanded, changed, compacted and analysed is a
defect of that one method (`Edit.Confined`). A rule that fails with such a defect alone where
it applies never ends a pass (`RewriteRule.Confined.rewrite`); what it cannot rewrite is left
alone and counted.
-/

namespace CilWeave

/-- Whatever goes wrong spoils the one method alone. -/
def Confined {α : Type} (result : Except Error α) : Prop :=
  ∀ e, result = .error e → e.isMethodScoped = true

namespace Edit

variable {σ α β : Type}

/-- Whatever goes wrong in the edit spoils the one method alone. -/
def Confined (edit : Edit σ α) : Prop := ∀ s e s', edit s = .error e s' → e.isMethodScoped = true

theorem confined_pure (a : α) : Confined (pure a : Edit σ α) := by
  intro s e s' h
  cases h

theorem Confined.bind {edit : Edit σ α} {next : α → Edit σ β} (h : edit.Confined)
    (h' : ∀ a, (next a).Confined) : Confined (edit >>= next) := by
  intro s e s' herr
  change EStateM.bind edit next s = .error e s' at herr
  simp only [EStateM.bind] at herr
  split at herr
  · exact h' _ _ _ _ herr
  · rename_i hedit
    cases herr
    exact h _ _ _ hedit

theorem Confined.map {edit : Edit σ α} (h : edit.Confined) (f : α → β) : Confined (f <$> edit) := by
  intro s e s' herr
  change EStateM.map f edit s = .error e s' at herr
  simp only [EStateM.map] at herr
  split at herr
  · cases herr
  · rename_i hedit
    cases herr
    exact h _ _ _ hedit

theorem Confined.within {τ : Type} {part : τ → σ} {put : τ → σ → τ} {edit : Edit σ α}
    (h : edit.Confined) : Confined (Edit.within part put edit) := by
  intro t e t' herr
  obtain ⟨s, hedit, -⟩ := within_eq_error.mp herr
  exact h _ _ _ hedit

end Edit

/-! ## Edits of the code -/

namespace InstructionList

theorem confined_push (i : Instruction) : Edit.Confined (push i) := by
  intro l e l' h
  unfold push at h
  split at h <;> cases h
  rfl

theorem confined_insertAfter (anchor : InstrId) (i : Instruction) :
    Edit.Confined (insertAfter anchor i) := by
  intro l e l' h
  unfold insertAfter at h
  split at h
  · split at h <;> cases h
    rfl
  · cases h
    rfl

theorem confined_insertBefore (anchor : InstrId) (i : Instruction) :
    Edit.Confined (insertBefore anchor i) := by
  intro l e l' h
  unfold insertBefore at h
  split at h
  · split at h <;> cases h
    rfl
  · cases h
    rfl

end InstructionList

/-! ## The stack analysis -/

theorem Instruction.confined_calledMethod (i : Instruction) (refs : ReferenceTable) :
    Confined (i.calledMethod refs) := by
  intro e h
  simp only [calledMethod] at h
  split at h <;> cases h
  rfl

theorem Instruction.confined_stackEffect (i : Instruction) (refs : ReferenceTable)
    (returnType : TypeSig) : Confined (i.stackEffect refs returnType) := by
  have called : ∀ f : MethodRef → Nat × Nat, Confined ((i.calledMethod refs).map f) := by
    intro f e h
    cases hm : i.calledMethod refs with
    | ok method => rw [hm] at h; cases h
    | error e' =>
      rw [hm] at h
      cases h
      exact i.confined_calledMethod refs e hm
  intro e h
  simp only [stackEffect] at h
  split at h
  · cases h
  · exact called _ e h
  · exact called _ e h
  · cases h
  · cases h
    rfl

theorem DepthMap.confined_record (map : DepthMap) (p d : Nat) : Confined (map.record p d) := by
  intro e h
  simp only [record] at h
  split at h
  · cases h
    rfl
  · cases h
  · split at h <;> cases h
    rfl

namespace MethodBody

variable {refs : ReferenceTable} {returnType : TypeSig}

theorem confined_recordAt (positions : Array (Option Nat)) (map : DepthMap) (id : InstrId)
    (d : Nat) : Confined (recordAt positions map id d) := by
  intro e h
  simp only [recordAt, positionOf] at h
  split at h
  · rename_i hposition
    split at hposition <;> cases hposition
    cases h
    rfl
  · exact map.confined_record _ d e h

theorem confined_recordEdges (positions : Array (Option Nat)) (p d : Nat) :
    ∀ (edges : List Edge) (map : DepthMap), Confined (recordEdges positions p d edges map)
  | [], map, e, h => by cases h
  | .next :: rest, map, e, h => by
    simp only [recordEdges] at h
    split at h
    · rename_i hrecord
      cases h
      exact map.confined_record _ _ e hrecord
    · exact confined_recordEdges positions p d rest _ e h
  | .target id :: rest, map, e, h => by
    simp only [recordEdges] at h
    split at h
    · rename_i hrecord
      cases h
      exact confined_recordAt positions map id d e hrecord
    · exact confined_recordEdges positions p d rest _ e h

theorem confined_recordHandlers (positions : Array (Option Nat)) :
    ∀ (handlers : List Handler) (map : DepthMap), Confined (recordHandlers positions handlers map)
  | [], map, e, h => by cases h
  | handler :: rest, map, e, h => by
    simp only [recordHandlers] at h
    split at h
    · rename_i hrecord
      cases h
      exact confined_recordAt positions map _ _ e hrecord
    · split at h
      · exact confined_recordHandlers positions rest _ e h
      · split at h
        · rename_i hrecord
          cases h
          exact confined_recordAt positions _ _ _ e hrecord
        · exact confined_recordHandlers positions rest _ e h

theorem confined_depthLoop (code : Array Instruction) (positions : Array (Option Nat)) :
    ∀ (steps : Nat) (map : DepthMap) (deepest : Nat),
      Confined (depthLoop code positions refs returnType steps map deepest)
  | 0, map, deepest, e, h => by cases h
  | steps + 1, map, deepest, e, h => by
    simp only [depthLoop] at h
    split at h
    · cases h
    · split at h
      · cases h
        rfl
      · rename_i i _
        split at h
        · rename_i heffect
          cases h
          exact i.confined_stackEffect refs returnType e heffect
        · split at h
          · cases h
            rfl
          · split at h
            · rename_i hrecord
              cases h
              exact confined_recordEdges positions _ _ _ _ e hrecord
            · exact confined_depthLoop code positions steps _ _ e h

theorem confined_computeMaxStack (b : MethodBody) :
    Confined (b.computeMaxStack refs returnType) := by
  intro e h
  simp only [computeMaxStack] at h
  split at h
  · cases h
  · split at h
    · rename_i hrecord
      cases h
      exact DepthMap.confined_record _ _ _ e hrecord
    · split at h
      · rename_i hrecord
        cases h
        exact confined_recordHandlers _ _ _ e hrecord
      · split at h
        · rename_i hloop
          cases h
          exact confined_depthLoop _ _ _ _ _ e hloop
        · split at h <;> cases h
          rfl

/-! ## Changing a body -/

theorem confined_expandEach : ∀ ids : List InstrId, Edit.Confined (expandEach ids)
  | [], b, e, s, h => by cases h
  | id :: rest, b, e, s, h => by
    rw [expandEach] at h
    split at h
    · exact confined_expandEach rest b e s h
    · split at h
      · rename_i hcheck
        cases h
        simp only [Instruction.checkOperand] at hcheck
        split at hcheck <;> cases hcheck
        rfl
      · exact confined_expandEach rest _ e s h

theorem confined_validate (b : MethodBody) : Confined b.validate := by
  intro e h
  simp only [validate] at h
  split at h
  · cases h
    rfl
  · split at h <;> cases h
    rfl

theorem confined_expand : Edit.Confined expand := by
  intro b e s h
  rw [expand] at h
  split at h
  · rename_i heach
    cases h
    exact confined_expandEach _ _ _ _ heach
  · split at h
    · rename_i hvalid
      cases h
      exact confined_validate _ e hvalid
    · cases h

theorem confined_layOutFrom : ∀ (ids : List InstrId) (start : UInt32),
    Edit.Confined (layOutFrom ids start)
  | [], start, b, e, s, h => by cases h
  | id :: rest, start, b, e, s, h => by
    rw [layOutFrom] at h
    split at h
    · exact confined_layOutFrom rest start b e s h
    · simp only at h
      split at h
      · exact confined_layOutFrom rest _ _ e s h
      · cases h
        rfl

theorem confined_shortenBranches : ∀ rounds : Nat, Edit.Confined (shortenBranches rounds)
  | 0, b, e, s, h => by
    rw [shortenBranches] at h
    split at h
    · rename_i hlay
      cases h
      exact confined_layOutFrom _ _ _ _ _ hlay
    · cases h
  | rounds + 1, b, e, s, h => by
    rw [shortenBranches] at h
    split at h
    · rename_i hlay
      cases h
      exact confined_layOutFrom _ _ _ _ _ hlay
    · split at h
      · cases h
      · exact confined_shortenBranches rounds _ e s h

theorem confined_compact : Edit.Confined (compact refs returnType) := by
  intro b e s h
  rw [compact] at h
  split at h
  · rename_i hexpand
    cases h
    exact confined_expand _ _ _ hexpand
  · simp only at h
    split at h
    · rename_i hshorten
      cases h
      exact confined_shortenBranches _ _ _ _ hshorten
    · split at h
      · rename_i hdepth
        cases h
        exact confined_computeMaxStack _ e hdepth
      · cases h

theorem confined_insertAllAfter : ∀ (code : List Instruction) (anchor : InstrId),
    Edit.Confined (insertAllAfter anchor code)
  | [], anchor, b, e, b', h => by cases h
  | i :: rest, anchor, b, e, b', h => by
    rw [insertAllAfter] at h
    split at h
    · exact confined_insertAllAfter rest _ _ e b' h
    · rename_i hinsert
      cases h
      exact (InstructionList.confined_insertAfter anchor i).within _ _ _ hinsert

theorem confined_insertTrailer (last : InstrId) (trailer : List Instruction) :
    Edit.Confined (insertTrailer last trailer) := by
  intro b e s h
  simp only [insertTrailer] at h
  split at h
  · cases h
  · split at h
    · cases h
      rfl
    · split at h
      · rename_i hinsert
        cases h
        exact confined_insertAllAfter _ _ _ _ _ hinsert
      · cases h

theorem confined_replace (site : InstrId) (r : Replacement) : Edit.Confined (replace site r) := by
  intro b e s h
  simp only [replace] at h
  split at h
  · cases h
    rfl
  · split at h
    · split at h
      · rename_i hinsert
        cases h
        exact confined_insertAllAfter _ _ _ _ _ hinsert
      · exact confined_insertTrailer _ _ _ _ _ h
    · cases h
      rfl

end MethodBody

/-! ## Drafts -/

namespace Draft

variable {σ α : Type} {returnType : TypeSig} {isChange : α → Bool}

theorem confined_onBody {edit : Edit MethodBody α} (h : edit.Confined) :
    Edit.Confined (onBody edit : Edit (Draft σ) α) := h.within

theorem confined_transact {edit : Edit (Draft σ) α} (h : edit.Confined) :
    Edit.Confined (transact returnType isChange edit) := by
  intro d e d' herr
  simp only [transact, editExpanded] at herr
  split at herr
  · rename_i hedit
    cases herr
    split at hedit
    · rename_i hexpand
      cases hedit
      exact confined_onBody MethodBody.confined_expand _ _ _ hexpand
    · split at hedit
      · rename_i hinner
        cases hedit
        exact h _ _ _ hinner
      · split at hedit
        · split at hedit
          · rename_i hcompact
            cases hedit
            exact confined_onBody MethodBody.confined_compact _ _ _ hcompact
          · cases hedit
        · cases hedit
  · cases herr

end Draft

/-! ## Rules -/

namespace RewriteRule

variable {σ : Type} {rule : RewriteRule σ}

/-- Where the rule applies, building a replacement goes wrong for reasons of the one method
alone. -/
def Confined (rule : RewriteRule σ) : Prop :=
  ∀ (body : MethodBody) (site : InstrId) (i : Instruction) (s : Supplies σ) (e : Error)
    (s' : Supplies σ), body.code.get? site = some i →
    rule.applies s.memory s.references i = true → rule.build body site s = .error e s' →
    e.isMethodScoped = true

theorem Confined.offerEach (h : rule.Confined) : ∀ (sites : List InstrId)
    (scratch : ScratchLocals) (done : List Offer),
    Edit.Confined (rule.offerEach sites scratch done)
  | [], scratch, done, d, e, d', herr => by cases herr
  | site :: rest, scratch, done, d, e, d', herr => by
    rw [RewriteRule.offerEach] at herr
    split at herr
    · rename_i happlies
      split at herr
      · rename_i hoffer
        cases herr
        simp only [appliesAt] at happlies
        split at happlies
        · rename_i i hi
          simp only [offer] at hoffer
          split at hoffer
          · rename_i hbuild
            cases hoffer
            exact h d.body site i _ _ _ hi happlies hbuild
          · split at hoffer
            · cases hoffer
            · split at hoffer
              · rename_i hreplace
                cases hoffer
                exact Draft.confined_onBody (MethodBody.confined_replace _ _) _ _ _ hreplace
              · cases hoffer
        · cases happlies
      · exact h.offerEach rest _ _ _ e d' herr
    · exact h.offerEach rest scratch done d e d' herr

/-- A rewrite that fails spoils the one method alone. -/
theorem Confined.rewrite (h : rule.Confined) (returnType : TypeSig) :
    Edit.Confined (rule.rewrite returnType) :=
  Draft.confined_transact fun d => h.offerEach d.body.code.ids.reverse .empty [] d

end RewriteRule

end CilWeave
