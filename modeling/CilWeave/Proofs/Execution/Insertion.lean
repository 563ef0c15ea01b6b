import CilWeave.Proofs.Execution.Paths

/-
Code that is put into a body.

A body in which everything that is referred to is there (`MethodBody.Closed`) is not left by its
runs (`Steps.within`). `Inserted` says that new code stands in one place of such a body. The handles
that were there keep their order, so regions protect what they protected (`MethodBody.protects_eq`),
and wherever the instruction is the one it was, so is its step (`Inserted.agreesAt`). New code that
runs straight on to a return is not left either (`Steps.inside`).
-/

namespace CilWeave

/-! ## Handles in a longer list -/

/-- Handles keep their order in a longer list. -/
theorem sublist_of_sublist_pair {α : Type} {a c : α} {l l' : List α} (h : l.Sublist l')
    (hnodup : l'.Nodup) (ha : a ∈ l) (hc : c ∈ l) (hpair : [a, c].Sublist l') :
    [a, c].Sublist l := by
  induction h with
  | slnil => exact hpair
  | @cons l₁ l₂ x hsub ih =>
    obtain ⟨hx, hrest⟩ := List.nodup_cons.mp hnodup
    cases hpair with
    | cons _ hpair => exact ih hrest ha hc hpair
    | cons_cons _ _ => exact absurd (hsub.subset ha) hx
  | @cons_cons l₁ l₂ x hsub ih =>
    obtain ⟨hx, hrest⟩ := List.nodup_cons.mp hnodup
    -- A handle of the shorter list that comes after `x` is behind it there as well.
    have old : ∀ {y : α}, y ∈ x :: l₁ → y ∈ l₂ → y ∈ l₁ := by
      intro y hy hy₂
      rcases List.mem_cons.mp hy with rfl | hy
      · exact absurd hy₂ hx
      · exact hy
    cases hpair with
    | cons _ hpair =>
      have ha₂ : a ∈ l₂ := hpair.subset (by simp)
      have hc₂ : c ∈ l₂ := hpair.subset (by simp)
      exact (ih hrest (old ha ha₂) (old hc hc₂) hpair).cons x
    | cons_cons _ hpair =>
      have hc₂ : c ∈ l₂ := hpair.subset (by simp)
      exact (List.singleton_sublist.mpr (old hc hc₂)).cons_cons a

theorem isSublist_pair_eq {a c : InstrId} {l l' : List InstrId} (h : l.Sublist l')
    (hnodup : l'.Nodup) (ha : a ∈ l) (hc : c ∈ l) :
    [a, c].isSublist l' = [a, c].isSublist l := by
  rw [Bool.eq_iff_iff, List.isSublist_iff_sublist, List.isSublist_iff_sublist]
  exact ⟨sublist_of_sublist_pair h hnodup ha hc, fun hpair => hpair.trans h⟩

namespace MethodBody

variable {b b' : MethodBody}

/-- With more instructions in between, a region protects what it protected. -/
theorem protects_eq (hids : b.code.ids.Sublist b'.code.ids) {handler : Handler} {id : InstrId}
    (hhandler : ∀ x ∈ handler.boundaries, x ∈ b.code.ids) (hid : id ∈ b.code.ids) :
    b'.protects handler id = b.protects handler id := by
  have hnodup := b'.code.nodup_ids
  have hstart : handler.tryStart ∈ b.code.ids :=
    hhandler _ (List.mem_filterMap.mpr ⟨_, by simp, rfl⟩)
  unfold protects
  rw [isSublist_pair_eq hids hnodup hstart hid]
  congr 1
  cases hend : handler.tryEnd with
  | none => rfl
  | some last =>
    have hlast : last ∈ b.code.ids :=
      hhandler _ (List.mem_filterMap.mpr ⟨some last, by simp [hend], rfl⟩)
    exact isSublist_pair_eq hids hnodup hid hlast

/-- With more instructions in between, the way out leads through the same handlers. -/
theorem finallyBetween_eq (hids : b.code.ids.Sublist b'.code.ids)
    (hhandlers : b'.handlers = b.handlers)
    (hboundaries : ∀ h ∈ b.handlers, ∀ x ∈ h.boundaries, x ∈ b.code.ids) {id target : InstrId}
    (hid : id ∈ b.code.ids) (htarget : target ∈ b.code.ids) :
    b'.finallyBetween id target = b.finallyBetween id target := by
  unfold finallyBetween
  rw [hhandlers]
  refine congrArg _ (List.filter_congr fun h hmem => ?_)
  rw [protects_eq hids (hboundaries h hmem) hid, protects_eq hids (hboundaries h hmem) htarget]

end MethodBody

open Execution

namespace MethodBody

variable {b b' s : MethodBody} {id x : InstrId}

/-! ## Closed bodies -/

/-- Everything that the instructions and the handlers of a body refer to is in the body. -/
structure Closed (b : MethodBody) : Prop where
  targets : ∀ id i, b.fetch? id = some i → ∀ t ∈ i.targets, t ∈ b.code.ids
  boundaries : ∀ h ∈ b.handlers, ∀ x ∈ h.boundaries, x ∈ b.code.ids

theorem Closed.mem_of_refersTo (h : b.Closed) (hx : b.RefersTo x) : x ∈ b.code.ids := by
  rcases hx with ⟨id, i, hi, -, hx⟩ | ⟨handler, hhandler, hx⟩
  · exact h.targets id i hi x hx
  · exact h.boundaries handler hhandler x hx

end MethodBody

namespace Execution

variable {δ ρ : Type} {w : World δ ρ} {b b' : MethodBody} {refs later : ReferenceTable}
  {returnType : TypeSig} {s s' s'' : State δ ρ} {front new back : List InstrId} {id x : InstrId}

/-! ## Runs that stay in a body -/

/-- A run is in the code of a body, and so is all that it has to come back to. -/
structure Within (b : MethodBody) (s : State δ ρ) : Prop where
  here : s.here ∈ b.code.ids
  resume : ∀ x ∈ s.resume, x ∈ b.code.ids

theorem Step.within (h : Step w b refs returnType s s') (hclosed : b.Closed) (hs : Within b s) :
    Within b s' := by
  obtain ⟨hto, hresume⟩ := h.came
  constructor
  · rcases hto with hnext | hrefers | hmem
    · exact InstructionList.mem_of_next? hnext
    · exact hclosed.mem_of_refersTo hrefers
    · exact hs.resume _ hmem
  · intro x hx
    exact (hresume x hx).elim hclosed.mem_of_refersTo (hs.resume x)

theorem Starts.within {arguments : List (Value δ)} {heap : Heap δ ρ}
    (h : Starts w b arguments heap s) : Within b s := by
  obtain ⟨id, hid, rfl⟩ := h
  rw [InstructionList.first?_eq] at hid
  exact ⟨List.mem_of_getElem? hid, nofun⟩

theorem Steps.within (h : Steps w b refs returnType s s') (hclosed : b.Closed)
    (hs : Within b s) : Within b s' :=
  h.preserves (fun _ _ hs hstep => hstep.within hclosed hs) hs

/-- Steps that another body takes as well, as long as something holds that they keep, make a run of
the other body. -/
theorem Steps.carry {P : State δ ρ → Prop} (h : Steps w b refs returnType s s'')
    (hstep : ∀ s s', P s → Step w b refs returnType s s' →
      Step w b' later returnType s s' ∧ P s') (hs : P s) :
    Steps w b' later returnType s s'' := by
  induction h with
  | refl s => exact .refl s
  | head hone _ ih =>
    obtain ⟨hone', hP⟩ := hstep _ _ hs hone
    exact .head hone' (ih hP)

/-! ## New code in one place -/

/-- A closed body with new code behind some of its own. -/
structure Inserted (b b' : MethodBody) (front new back : List InstrId) : Prop where
  before : b.code.ids = front ++ back
  after : b'.code.ids = front ++ (new ++ back)
  handlers : b'.handlers = b.handlers
  closed : b.Closed

namespace Inserted

variable (h : Inserted b b' front new back)
include h

theorem sublist_ids : b.code.ids.Sublist b'.code.ids := by
  rw [h.before, h.after]
  exact (List.sublist_append_right new back).append_left front

theorem not_mem_of_new (hx : x ∈ new) : x ∉ b.code.ids := by
  have hnodup := b'.code.nodup_ids
  rw [h.after, List.nodup_append, List.nodup_append] at hnodup
  obtain ⟨-, ⟨-, -, hback⟩, hfront⟩ := hnodup
  rw [h.before, List.mem_append]
  rintro (hmem | hmem)
  · exact hfront x hmem x (List.mem_append_left back hx) rfl
  · exact hback x hx x hmem rfl

theorem mem_cases (hx : x ∈ b'.code.ids) : x ∈ new ∨ x ∈ b.code.ids := by
  rw [h.after, List.mem_append, List.mem_append] at hx
  rw [h.before, List.mem_append]
  rcases hx with hx | hx | hx
  · exact .inr (.inl hx)
  · exact .inl hx
  · exact .inr (.inr hx)

/-- Only what the new code stands behind is followed by something else. -/
theorem next?_eq (hid : id ∈ b.code.ids) (hlast : front.getLast? ≠ some id) :
    b'.code.next? id = b.code.next? id := by
  have hbefore := h.before
  have hafter := h.after
  rw [hbefore, List.mem_append] at hid
  rcases hid with hid | hid
  · obtain ⟨pre, post, rfl⟩ := List.append_of_mem hid
    cases post with
    | nil => exact absurd (List.getLast?_concat ..) hlast
    | cons y post =>
      rw [List.append_assoc, List.cons_append] at hbefore hafter
      rw [InstructionList.next?_of_split hbefore, InstructionList.next?_of_split hafter]
      rfl
  · obtain ⟨pre, post, rfl⟩ := List.append_of_mem hid
    rw [← List.append_assoc] at hbefore
    rw [← List.append_assoc, ← List.append_assoc] at hafter
    rw [InstructionList.next?_of_split hbefore, InstructionList.next?_of_split hafter]

theorem agreesAt (hid : id ∈ b.code.ids) (hlast : front.getLast? ≠ some id)
    (hfetch : b'.fetch? id = b.fetch? id) : AgreesAt b b' id where
  fetch := hfetch
  next := h.next?_eq hid hlast
  finallyBetween i hi t ht := MethodBody.finallyBetween_eq h.sublist_ids h.handlers
    h.closed.boundaries hid (h.closed.targets id i hi t ht)

end Inserted

/-! ## Code that runs on to a return -/

/-- A run that is in code which goes straight on to a return stays there. -/
theorem Steps.inside {P : InstrId → Prop} (h : Steps w b refs returnType s s')
    (hcode : ∀ id, P id → ∃ i, b.fetch? id = some i ∧ (i.op = .ret ∨
      (i.op.flow = .sequential ∨ i.op.flow = .call) ∧ ∃ id', b.code.next? id = some id' ∧ P id'))
    (hs : P s.here) : P s'.here := by
  refine h.preserves (P := fun s => P s.here) ?_ hs
  rintro ⟨id, stack, m, resume⟩ s' hid hstep
  obtain ⟨i, hi, hret | ⟨hflow, id', hnext, hid'⟩⟩ := hcode id hid
  · exact absurd hstep (not_step_of_ret hi hret)
  · obtain ⟨_, _, _, -, hnext', rfl⟩ := hstep.goes_on hi hflow
    rw [hnext] at hnext'
    cases hnext'
    exact hid'

end Execution

end CilWeave
