import CilWeave.Proofs.Execution.Straight

/-
Where a run comes from, and what it depends on.

A step leads to the next instruction, to one that a branch or a handler refers to, or to where a
finally handler was to go on (`Step.came`). So what nothing refers to is reached from the
instruction in front of it only (`Steps.before`). Where an instruction has one outcome, a run goes
the one way (`Leads.steps_iff`). A step depends on nothing but the instruction, the one behind it
and the finally handlers on its way (`Step.of_agrees`), and references that are added change nothing
about it (`Step.of_growsTo`).
-/

namespace CilWeave

namespace MethodBody

variable {b : MethodBody} {id target x : InstrId}

/-- An instruction of the body may jump to a handle, or the handle bounds a handler. -/
def RefersTo (b : MethodBody) (x : InstrId) : Prop :=
  (∃ id i, b.fetch? id = some i ∧ i.op.flow.jumps = true ∧ x ∈ i.targets) ∨
    ∃ h ∈ b.handlers, x ∈ h.boundaries

theorem RefersTo.mem_referenced (h : b.RefersTo x) : x ∈ b.referenced := by
  rcases h with ⟨id, i, hi, hjumps, hx⟩ | ⟨handler, hhandler, hx⟩
  · obtain ⟨j, hj, rfl⟩ := Execution.exists_get?_of_fetch? hi
    have hflow : j.said.op.flow = j.op.flow := j.moves_expanded.1
    have htargets : j.said.targets = j.targets := j.targets_expanded_of_jumps (hflow ▸ hjumps)
    have hmem : j ∈ b.code.instructions := by
      rw [← InstructionList.map_snd_entries]
      exact List.mem_map_of_mem (InstructionList.mem_entries.mpr hj)
    exact List.mem_append_left _ (List.mem_flatMap.mpr ⟨j, hmem, htargets ▸ hx⟩)
  · exact List.mem_append_right _ (List.mem_flatMap.mpr ⟨handler, hhandler, hx⟩)

theorem refersTo_of_mem_finallyBetween (hx : x ∈ b.finallyBetween id target) : b.RefersTo x := by
  obtain ⟨h, hmem, rfl⟩ := List.mem_map.mp hx
  exact .inr ⟨h, (List.mem_filter.mp hmem).1, List.mem_filterMap.mpr ⟨_, by simp, rfl⟩⟩

end MethodBody

namespace Execution

variable {δ ρ : Type} {w : World δ ρ} {b b' : MethodBody} {refs later : ReferenceTable}
  {returnType : TypeSig} {s s' s'' : State δ ρ}

/-! ## Where a run comes from -/

/-- Where a step leads to, and where the finally handlers on its way lead to. -/
theorem Step.came (h : Step w b refs returnType s s') :
    (b.code.next? s.here = some s'.here ∨ b.RefersTo s'.here ∨ s'.here ∈ s.resume) ∧
      ∀ x ∈ s'.resume, b.RefersTo x ∨ x ∈ s.resume := by
  cases h with
  | next _ _ hnext | stay _ _ _ _ hnext => exact ⟨.inl hnext, fun x hx => .inr hx⟩
  | jump hi hflow _ _ ht =>
    refine ⟨.inr (.inl (.inl ⟨_, _, hi, ?_, List.mem_of_getElem? ht⟩)),
      fun x hx => .inr hx⟩
    rcases hflow with hflow | hflow <;> rw [hflow] <;> rfl
  | branch hi hflow ht =>
    exact ⟨.inr (.inl (.inl ⟨_, _, hi, hflow ▸ rfl, ht ▸ List.mem_singleton_self _⟩)),
      fun x hx => .inr hx⟩
  | @leave id id' target i _ _ _ rest hi hflow ht hway =>
    have hrefers : ∀ x ∈ id' :: rest, b.RefersTo x := by
      intro x hx
      rw [← hway] at hx
      rcases List.mem_append.mp hx with hx | hx
      · exact MethodBody.refersTo_of_mem_finallyBetween hx
      · exact .inl ⟨_, _, hi, hflow ▸ rfl, ht ▸ hx⟩
    refine ⟨.inr (.inl (hrefers id' List.mem_cons_self)), fun x hx => ?_⟩
    exact (List.mem_append.mp hx).imp_left fun hx => hrefers x (List.mem_cons_of_mem id' hx)
  | endFinally =>
    exact ⟨.inr (.inr List.mem_cons_self), fun x hx => .inr (List.mem_cons_of_mem _ hx)⟩

theorem Steps.eq_or_last (h : Steps w b refs returnType s s'') :
    s'' = s ∨ ∃ s', Steps w b refs returnType s s' ∧ Step w b refs returnType s' s'' := by
  induction h with
  | refl s => exact .inl rfl
  | @head s s' s'' hstep _ ih =>
    rcases ih with rfl | ⟨last, hsteps, hlast⟩
    · exact .inr ⟨s, .refl s, hstep⟩
    · exact .inr ⟨last, .head hstep hsteps, hlast⟩

theorem Steps.resume {arguments : List (Value δ)} {heap : Heap δ ρ}
    (h : Steps w b refs returnType s s') (hstart : Starts w b arguments heap s) :
    ∀ x ∈ s'.resume, b.RefersTo x := by
  have hfirst : ∀ x ∈ s.resume, b.RefersTo x := by
    obtain ⟨id, -, rfl⟩ := hstart
    exact nofun
  exact h.preserves (P := fun s => ∀ x ∈ s.resume, b.RefersTo x)
    (fun _ _ hs hstep x hx => (hstep.came.2 x hx).elim id (hs x)) hfirst

/-- A run comes to an instruction that nothing refers to from the one in front of it, unless it
starts there. -/
theorem Steps.before {arguments : List (Value δ)} {heap : Heap δ ρ}
    (h : Steps w b refs returnType s s'') (hstart : Starts w b arguments heap s)
    (hnot : ¬ b.RefersTo s''.here) (hfirst : b.code.first? ≠ some s''.here) :
    ∃ s', Steps w b refs returnType s s' ∧ Step w b refs returnType s' s'' ∧
      b.code.next? s'.here = some s''.here := by
  rcases h.eq_or_last with rfl | ⟨s', hsteps, hlast⟩
  · obtain ⟨id, hid, rfl⟩ := hstart
    exact absurd hid hfirst
  · rcases hlast.came.1 with hnext | hrefers | hresume
    · exact ⟨s', hsteps, hlast, hnext⟩
    · exact absurd hrefers hnot
    · exact absurd (hsteps.resume hstart _ hresume) hnot

/-- What an instruction that goes on leads to, if nothing refers to it, is reached from there. -/
theorem Steps.came_from {arguments : List (Value δ)} {heap : Heap δ ρ} {id id' : InstrId}
    {i : Instruction} {stack' : List (Value δ)} {m' : Memory δ ρ} {resume : List InstrId}
    (h : Steps w b refs returnType s ⟨id', stack', m', resume⟩)
    (hstart : Starts w b arguments heap s) (hi : b.fetch? id = some i)
    (hflow : i.op.flow = .sequential ∨ i.op.flow = .call) (hnext : b.code.next? id = some id')
    (hnot : ¬ b.RefersTo id') :
    ∃ stack m, Steps w b refs returnType s ⟨id, stack, m, resume⟩ ∧
      Does w refs returnType i stack m stack' m' := by
  obtain ⟨⟨before, stack, m, resume'⟩, hsteps, hlast, hbefore⟩ :=
    h.before hstart hnot (InstructionList.first?_ne_of_next? hnext)
  obtain rfl : before = id := InstructionList.next?_inj hbefore hnext
  obtain ⟨_, _, _, hdoes, -, heq⟩ := hlast.goes_on hi hflow
  cases heq
  exact ⟨stack, m, hsteps, hdoes⟩

/-! ## Steps that lead to one state -/

/-- The only step from a state leads to another one. -/
def Leads (w : World δ ρ) (b : MethodBody) (refs : ReferenceTable) (returnType : TypeSig)
    (s s' : State δ ρ) : Prop :=
  ∀ s'', Step w b refs returnType s s'' ↔ s'' = s'

theorem Leads.steps_iff (h : Leads w b refs returnType s s') :
    Steps w b refs returnType s s'' ↔ s'' = s ∨ Steps w b refs returnType s' s'' := by
  constructor
  · rintro (_ | ⟨hstep, hrest⟩)
    · exact .inl rfl
    · obtain rfl := (h _).mp hstep
      exact .inr hrest
  · rintro (rfl | hrest)
    · exact .refl s''
    · exact .head ((h s').mpr rfl) hrest

theorem leads_next {id id' : InstrId} {i : Instruction} {stack stack' : List (Value δ)}
    {m m' : Memory δ ρ} {resume : List InstrId} (hi : b.fetch? id = some i)
    (hflow : i.op.flow = .sequential ∨ i.op.flow = .call) (hnext : b.code.next? id = some id')
    (hdoes : ∀ stack'' m'', Does w refs returnType i stack m stack'' m'' ↔
      stack'' = stack' ∧ m'' = m') :
    Leads w b refs returnType ⟨id, stack, m, resume⟩ ⟨id', stack', m', resume⟩ := by
  intro s
  constructor
  · intro hstep
    obtain ⟨_, _, _, hone, hnext', rfl⟩ := hstep.goes_on hi hflow
    rw [hnext] at hnext'
    cases hnext'
    obtain ⟨rfl, rfl⟩ := (hdoes _ _).mp hone
    rfl
  · rintro rfl
    exact .next hi ((hdoes _ _).mpr ⟨rfl, rfl⟩) hnext

/-- Where an instruction leads to that takes one of its targets, or none. -/
def onward? (b : MethodBody) (id : InstrId) (i : Instruction) : Option Nat → Option InstrId
  | some k => i.targets[k]?
  | none => b.code.next? id

/-- A conditional branch leads where the world decides. -/
theorem step_of_conditional {id : InstrId} {i : Instruction} {args stack : List (Value δ)}
    {m : Memory δ ρ} {resume : List InstrId} (hi : b.fetch? id = some i)
    (hflow : i.op.flow = .conditionalBranch)
    (heffect : i.stackEffect refs returnType = .ok (args.length, 0)) :
    Step w b refs returnType ⟨id, args ++ stack, m, resume⟩ s ↔
      ∃ id' taken, w.decides i.op args taken ∧ onward? b id i taken = some id' ∧
        s = ⟨id', stack, m, resume⟩ := by
  constructor
  · intro h
    generalize hstack : args ++ stack = whole at h
    cases h with
    | next hi' hdoes =>
      rw [hi] at hi'
      cases hi'
      rcases hdoes.flow with hflow' | hflow' <;> rw [hflow] at hflow' <;> cases hflow'
    | jump hi' _ heffect' hdecides ht =>
      rw [hi] at hi'
      cases hi'
      rw [heffect] at heffect'
      obtain ⟨rfl, rfl⟩ := List.append_inj hstack (Prod.mk.inj (Except.ok.inj heffect')).1
      exact ⟨_, some _, hdecides, ht, rfl⟩
    | stay hi' _ heffect' hdecides hnext =>
      rw [hi] at hi'
      cases hi'
      rw [heffect] at heffect'
      obtain ⟨rfl, rfl⟩ := List.append_inj hstack (Prod.mk.inj (Except.ok.inj heffect')).1
      exact ⟨_, none, hdecides, hnext, rfl⟩
    | branch hi' hflow' | leave hi' hflow' =>
      rw [hi] at hi'
      cases hi'
      rw [hflow] at hflow'
      cases hflow'
    | endFinally hi' hop =>
      rw [hi] at hi'
      cases hi'
      rw [hop] at hflow
      cases hflow
  · rintro ⟨id', taken, hdecides, hto, rfl⟩
    cases taken with
    | some k => exact .jump hi (.inl hflow) heffect hdecides hto
    | none => exact .stay hi (.inl hflow) heffect hdecides hto

/-- A conditional branch that can be decided in one way leads there. -/
theorem leads_conditional {id id' : InstrId} {i : Instruction} (args : List (Value δ))
    {stack : List (Value δ)} {m : Memory δ ρ} {resume : List InstrId} {taken : Option Nat}
    (hi : b.fetch? id = some i)
    (hflow : i.op.flow = .conditionalBranch)
    (heffect : i.stackEffect refs returnType = .ok (args.length, 0))
    (hdecides : ∀ taken', w.decides i.op args taken' ↔ taken' = taken)
    (hto : onward? b id i taken = some id') :
    Leads w b refs returnType ⟨id, args ++ stack, m, resume⟩ ⟨id', stack, m, resume⟩ := by
  intro s
  rw [step_of_conditional hi hflow heffect]
  constructor
  · rintro ⟨_, _, hdecided, hto', rfl⟩
    obtain rfl := (hdecides _).mp hdecided
    rw [hto] at hto'
    cases hto'
    rfl
  · rintro rfl
    exact ⟨id', taken, (hdecides taken).mpr rfl, hto, rfl⟩

/-! ## What a step depends on -/

/-- Two bodies have the same instruction at a handle, with the same one behind it and the same ways
out of protected regions. -/
structure AgreesAt (b b' : MethodBody) (id : InstrId) : Prop where
  fetch : b'.fetch? id = b.fetch? id
  next : b'.code.next? id = b.code.next? id
  finallyBetween : ∀ i, b.fetch? id = some i → ∀ t ∈ i.targets,
    b'.finallyBetween id t = b.finallyBetween id t

theorem AgreesAt.symm {id : InstrId} (h : AgreesAt b b' id) : AgreesAt b' b id where
  fetch := h.fetch.symm
  next := h.next.symm
  finallyBetween i hi t ht := (h.finallyBetween i (h.fetch ▸ hi) t ht).symm

theorem Step.of_agrees (hagrees : AgreesAt b b' s.here) (h : Step w b refs returnType s s') :
    Step w b' refs returnType s s' := by
  cases h with
  | next hi hdoes hnext => exact .next (hagrees.fetch.trans hi) hdoes (hagrees.next.trans hnext)
  | jump hi hflow heffect hdecides ht =>
    exact .jump (hagrees.fetch.trans hi) hflow heffect hdecides ht
  | stay hi hflow heffect hdecides hnext =>
    exact .stay (hagrees.fetch.trans hi) hflow heffect hdecides (hagrees.next.trans hnext)
  | branch hi hflow ht => exact .branch (hagrees.fetch.trans hi) hflow ht
  | leave hi hflow ht hway =>
    refine .leave (hagrees.fetch.trans hi) hflow ht ?_
    rw [hagrees.finallyBetween _ hi _ (ht ▸ List.mem_singleton_self _)]
    exact hway
  | endFinally hi hop => exact .endFinally (hagrees.fetch.trans hi) hop

theorem AgreesAt.step_iff (hagrees : AgreesAt b b' s.here) :
    Step w b' refs returnType s s' ↔ Step w b refs returnType s s' :=
  ⟨.of_agrees hagrees.symm, .of_agrees hagrees⟩

/-- References that are added change nothing about what an instruction does. -/
theorem Does.of_growsTo {i : Instruction} {stack stack' : List (Value δ)} {m m' : Memory δ ρ}
    (hgrows : refs.GrowsTo later) (h : Does w refs returnType i stack m stack' m') :
    Does w later returnType i stack m stack' m' := by
  have hpad : ∀ m : Memory δ ρ, m.pad [] = m := by
    intro m
    unfold Memory.pad
    rw [List.append_nil]
  have hdoes := h.pad hgrows []
  rwa [hpad, hpad] at hdoes

theorem Step.of_growsTo (hgrows : refs.GrowsTo later) (h : Step w b refs returnType s s') :
    Step w b later returnType s s' := by
  cases h with
  | next hi hdoes hnext => exact .next hi (hdoes.of_growsTo hgrows) hnext
  | jump hi hflow heffect hdecides ht =>
    exact .jump hi hflow (hgrows.stackEffect_eq_ok heffect) hdecides ht
  | stay hi hflow heffect hdecides hnext =>
    exact .stay hi hflow (hgrows.stackEffect_eq_ok heffect) hdecides hnext
  | branch hi hflow ht => exact .branch hi hflow ht
  | leave hi hflow ht hway => exact .leave hi hflow ht hway
  | endFinally hi hop => exact .endFinally hi hop

/-- A run is one with references that are added, too. -/
theorem Steps.of_growsTo (hgrows : refs.GrowsTo later) (h : Steps w b refs returnType s s') :
    Steps w b later returnType s s' := by
  induction h with
  | refl s => exact .refl s
  | head hstep _ ih => exact .head (hstep.of_growsTo hgrows) ih

end Execution

end CilWeave
