import CilWeave.Proofs.Encoding.Effects
import CilWeave.Proofs.Execution.Machine
import CilWeave.Proofs.StackDepth.Arrival

/-
The machine keeps to the analysis of the stack.

An instruction takes as many values from the stack and puts as many there as it is said to
(`Execution.Does.stackEffect`). So wherever a run is, control can come there with as many values
as are on its stack (`Execution.Steps.arrives`), and what the analysis says of a body holds of all
of its runs.
-/

namespace CilWeave

variable {refs : ReferenceTable} {returnType : TypeSig}

/-- How many values a call of the method pushes. -/
def MethodRef.pushes (method : MethodRef) : Nat := if method.returnType.isVoid then 0 else 1

theorem MethodRef.pushes_le (method : MethodRef) : method.pushes ≤ 1 := by
  unfold pushes
  split
  · exact Nat.zero_le 1
  · exact Nat.le_refl 1

namespace Instruction

variable {i : Instruction}

theorem stackEffect_of_fixed {pops pushes : Nat} (h : i.op.info.stack = .fixed pops pushes) :
    i.stackEffect refs returnType = .ok (pops, pushes) := by
  unfold stackEffect
  rw [h]

theorem stackEffect_of_call {method : MethodRef} (hop : i.op.isCall = true)
    (hcalled : i.calledMethod refs = .ok method) :
    i.stackEffect refs returnType = .ok (method.pops, method.pushes) := by
  have hstack : i.op.info.stack = .call := by
    rcases OpCode.of_isCall hop with hop | hop <;> rw [hop] <;> rfl
  unfold stackEffect
  rw [hstack, hcalled]
  rfl

theorem said_of_namesMember (h : i.op.namesMember = true) : i.said = .of i.op i.operand := by
  unfold said
  rw [expanded_of_namesMember h]

theorem namesMember_of_stack (h : i.op.info.stack = .call ∨ i.op.info.stack = .newObj) :
    i.op.namesMember = true := by
  obtain ⟨op, operand, offset⟩ := i
  cases op <;> rcases h with h | h <;> first | rfl | cases h

theorem op_of_loads? {l : Execution.Location} (h : i.loads? = some l) :
    i.op = .ldarg ∨ i.op = .ldloc := by
  unfold loads? at h
  split at h
  · exact .inl ‹_›
  · exact .inr ‹_›
  · cases h

theorem op_of_stores? {l : Execution.Location} (h : i.stores? = some l) :
    i.op = .starg ∨ i.op = .stloc := by
  unfold stores? at h
  split at h
  · exact .inl ‹_›
  · exact .inr ‹_›
  · cases h

theorem op_of_addresses? {l : Execution.Location} (h : i.addresses? = some l) :
    i.op = .ldarga ∨ i.op = .ldloca := by
  unfold addresses? at h
  split at h
  · exact .inl ‹_›
  · exact .inr ‹_›
  · cases h

theorem stack_of_branch (h : i.op.flow = .unconditionalBranch ∨ i.op.flow = .leave) :
    i.op.info.stack = .fixed 0 0 := by
  obtain ⟨op, operand, offset⟩ := i
  cases op <;> rcases h with h | h <;> first | rfl | cases h

theorem stackEffect_said {effect : Nat × Nat} :
    i.said.stackEffect refs returnType = .ok effect ↔
      i.stackEffect refs returnType = .ok effect := by
  by_cases hmember : i.op.namesMember = true
  · rw [said_of_namesMember hmember]
    rfl
  · have hstack : i.said.op.info.stack = i.op.info.stack := i.moves_expanded.2
    have hcall : i.op.info.stack ≠ .call ∧ i.op.info.stack ≠ .newObj :=
      ⟨fun h => hmember (namesMember_of_stack (.inl h)),
        fun h => hmember (namesMember_of_stack (.inr h))⟩
    unfold stackEffect
    rw [hstack]
    cases hs : i.op.info.stack with
    | call => exact absurd hs hcall.1
    | newObj => exact absurd hs hcall.2
    | unsupported => exact ⟨nofun, nofun⟩
    | fixed | «return» => rfl

end Instruction

namespace Execution

open MethodBody (Arrives Entry)

variable {δ ρ : Type} {w : World δ ρ} {b : MethodBody} {i : Instruction}
  {stack stack' : List (Value δ)} {m m' : Memory δ ρ}

theorem access_effect_of_none (method : MethodRef) (access : Access)
    (h : (none : Option Access) = some access) :
    (method.pops, if method.returnType.isVoid then 0 else 1) = access.effect := by
  cases h

/-! ## One instruction -/

/-- An instruction takes as many values from the stack as its effect says, puts as many there, and
leaves those below alone. -/
theorem Does.frame (h : Does w refs returnType i stack m stack' m') :
    ∃ args results rest, stack = args ++ rest ∧ stack' = results ++ rest ∧
      i.stackEffect refs returnType = .ok (args.length, results.length) := by
  have called : ∀ {method : MethodRef} {effect : Nat × Nat}, i.op.isCall = true →
      i.calledMethod refs = .ok method → (method.pops, method.pushes) = effect →
      i.stackEffect refs returnType = .ok effect :=
    fun hcall hmethod heffect => heffect ▸ Instruction.stackEffect_of_call hcall hmethod
  cases h with
  | literal hop =>
    exact ⟨[], [_], stack, rfl, rfl, Instruction.stackEffect_of_fixed (by rw [hop]; rfl)⟩
  | copy hop =>
    exact ⟨[_], [_, _], _, rfl, rfl, Instruction.stackEffect_of_fixed (by rw [hop]; rfl)⟩
  | load hl =>
    refine ⟨[], [_], stack, rfl, rfl, Instruction.stackEffect_of_fixed ?_⟩
    rcases Instruction.op_of_loads? hl with hop | hop <;> rw [hop] <;> rfl
  | store hl =>
    refine ⟨[_], [], _, rfl, rfl, Instruction.stackEffect_of_fixed ?_⟩
    rcases Instruction.op_of_stores? hl with hop | hop <;> rw [hop] <;> rfl
  | address hl =>
    refine ⟨[], [_], stack, rfl, rfl, Instruction.stackEffect_of_fixed ?_⟩
    rcases Instruction.op_of_addresses? hl with hop | hop <;> rw [hop] <;> rfl
  | loadField hop =>
    exact ⟨[_], [_], _, rfl, rfl, Instruction.stackEffect_of_fixed (by rw [hop]; rfl)⟩
  | storeField hop =>
    exact ⟨[_, _], [], _, rfl, rfl, Instruction.stackEffect_of_fixed (by rw [hop]; rfl)⟩
  | addressField hop =>
    exact ⟨[_], [_], _, rfl, rfl, Instruction.stackEffect_of_fixed (by rw [hop]; rfl)⟩
  | get hcall hmethod haccess =>
    exact ⟨[_, _], [_], _, rfl, rfl, called hcall hmethod (w.access_effect _ _ haccess)⟩
  | set hcall hmethod haccess =>
    exact ⟨[_, _, _], [], _, rfl, rfl, called hcall hmethod (w.access_effect _ _ haccess)⟩
  | update hcall hmethod htakes =>
    exact ⟨[_], [], _, rfl, rfl,
      called hcall hmethod (Prod.ext htakes.pops_eq (if_pos htakes.2.1))⟩
  | perform _ _ _ heffect => exact ⟨_, _, _, rfl, rfl, heffect⟩

theorem Does.frame_of_effect {pops pushes : Nat} (h : Does w refs returnType i stack m stack' m')
    (heffect : i.stackEffect refs returnType = .ok (pops, pushes)) :
    ∃ args results rest, stack = args ++ rest ∧ stack' = results ++ rest ∧ args.length = pops ∧
      results.length = pushes := by
  obtain ⟨args, results, rest, hstack, hstack', heffect'⟩ := h.frame
  rw [heffect] at heffect'
  cases heffect'
  exact ⟨args, results, rest, hstack, hstack', rfl, rfl⟩

theorem Does.frame_of_call {args rest : List (Value δ)} {pushes : Nat}
    (h : Does w refs returnType i (args ++ rest) m stack' m') (hcall : i.op.isCall = true)
    (heffect : i.stackEffect refs returnType = .ok (args.length, pushes))
    (hargs : framePlaces args = []) : m' = { m with heap := m'.heap } := by
  generalize hstack : args ++ rest = stack at h
  cases h with
  | literal | copy | load | address | loadField | storeField | addressField | get | set => rfl
  | store hl =>
    rcases Instruction.op_of_stores? hl with hop | hop <;> rw [hop] at hcall <;> cases hcall
  | @update method l _ _ _ _ _ hmethod htakes =>
    -- The place it was handed is a field.
    rw [Instruction.stackEffect_of_call hcall hmethod, htakes.pops_eq] at heffect
    obtain ⟨hlength, -⟩ := Prod.mk.inj (Except.ok.inj heffect)
    obtain ⟨a, rfl⟩ := List.length_eq_one_iff.mp hlength.symm
    obtain ⟨rfl, -⟩ := List.cons.inj hstack
    cases l with
    | ofField => rfl
    | ofArgument | ofLocal => cases hargs
  | @perform _ args' _ _ _ _ _ _ _ _ _ _ heffect' _ _ _ hm' =>
    rw [heffect] at heffect'
    obtain ⟨hlength, -⟩ := Prod.mk.inj (Except.ok.inj heffect')
    obtain ⟨rfl, -⟩ := List.append_inj hstack hlength
    rw [hargs] at hm'
    rw [hm']
    rfl

/-- The stack after an instruction is as deep as its effect says. -/
theorem Does.stackEffect (h : Does w refs returnType i stack m stack' m') :
    ∃ pops pushes, i.stackEffect refs returnType = .ok (pops, pushes) ∧ pops ≤ stack.length ∧
      stack'.length = stack.length - pops + pushes := by
  obtain ⟨args, results, rest, rfl, rfl, heffect⟩ := h.frame
  refine ⟨_, _, heffect, ?_, ?_⟩
  · rw [List.length_append]
    exact Nat.le_add_right _ _
  · rw [List.length_append, List.length_append, Nat.add_sub_cancel_left, Nat.add_comm]

/-- What does something to the stack and the memory goes on to the next instruction. -/
theorem Does.flow (h : Does w refs returnType i stack m stack' m') :
    i.op.flow = .sequential ∨ i.op.flow = .call := by
  have called : i.op.isCall = true → i.op.flow = .sequential ∨ i.op.flow = .call := by
    intro hcall
    rcases OpCode.of_isCall hcall with hop | hop <;> rw [hop] <;> exact .inr rfl
  cases h with
  | literal hop | copy hop | loadField hop | storeField hop | addressField hop =>
    rw [hop]
    exact .inl rfl
  | load hl => rcases Instruction.op_of_loads? hl with hop | hop <;> rw [hop] <;> exact .inl rfl
  | store hl => rcases Instruction.op_of_stores? hl with hop | hop <;> rw [hop] <;> exact .inl rfl
  | address hl =>
    rcases Instruction.op_of_addresses? hl with hop | hop <;> rw [hop] <;> exact .inl rfl
  | get hcall | set hcall | update hcall => exact called hcall
  | perform hforeign =>
    unfold OpCode.isForeign at hforeign
    split at hforeign
    all_goals first
      | cases hforeign
      | (rw [Bool.or_eq_true, beq_iff_eq, beq_iff_eq] at hforeign; exact hforeign)

theorem Does.goesOn (h : Does w refs returnType i stack m stack' m') :
    i.op.flow.goesOn = true := by
  rcases h.flow with hflow | hflow <;> rw [hflow] <;> rfl

/-! ## Runs -/

/-- Control can come to where a run is, with as many values as it has on its stack, and with none
to where finally handlers lead. -/
structure Expected (b : MethodBody) (refs : ReferenceTable) (returnType : TypeSig)
    (s : State δ ρ) : Prop where
  here : b.Arrives refs returnType s.here s.stack.length
  resume : ∀ id ∈ s.resume, b.Arrives refs returnType id 0

theorem exists_get?_of_fetch? {id : InstrId} (h : b.fetch? id = some i) :
    ∃ j, b.code.get? id = some j ∧ j.said = i :=
  Option.map_eq_some_iff.mp h

theorem le_of_balanced {id : InstrId} {depth pops pushes : Nat} (hb : b.Balanced refs returnType)
    (h : b.Arrives refs returnType id depth) (hi : b.fetch? id = some i)
    (heffect : i.stackEffect refs returnType = .ok (pops, pushes)) : pops ≤ depth := by
  obtain ⟨j, hj, rfl⟩ := exists_get?_of_fetch? hi
  exact hb.fed id depth j pops pushes h hj (Instruction.stackEffect_said.mp heffect)

theorem arrives_of_mem_finallyBetween {id target x : InstrId}
    (h : x ∈ b.finallyBetween id target) : b.Arrives refs returnType x 0 := by
  obtain ⟨handler, hmem, rfl⟩ := List.mem_map.mp h
  obtain ⟨hhandler, htest⟩ := List.mem_filter.mp hmem
  simp only [Bool.and_eq_true, beq_iff_eq] at htest
  have hentry := Entry.handler (b := b) hhandler
  rw [Handler.pushesException, htest.1.1] at hentry
  exact .entry hentry

theorem arrives_of_mem_targets {id id' : InstrId} {depth pops pushes : Nat}
    (h : b.Arrives refs returnType id depth) (hi : b.fetch? id = some i)
    (heffect : i.stackEffect refs returnType = .ok (pops, pushes)) (hle : pops ≤ depth)
    (hjumps : i.op.flow.jumps = true) (ht : id' ∈ i.targets) :
    b.Arrives refs returnType id'
      (if i.op.flow = .leave then 0 else depth - pops + pushes) := by
  obtain ⟨j, hj, rfl⟩ := exists_get?_of_fetch? hi
  have hflow : j.said.op.flow = j.op.flow := j.moves_expanded.1
  have htargets : j.said.targets = j.targets := j.targets_expanded_of_jumps (hflow ▸ hjumps)
  rw [hflow] at hjumps ⊢
  rw [htargets] at ht
  exact .target h ⟨hj, pops, pushes, Instruction.stackEffect_said.mp heffect, hle, rfl⟩ hjumps ht

/-- A step goes where control can go. -/
theorem Expected.step {s s' : State δ ρ} (h : Expected b refs returnType s)
    (hstep : Step w b refs returnType s s') : Expected b refs returnType s' := by
  obtain ⟨hhere, hresume⟩ := h
  cases hstep with
  | next hi hdoes hnext =>
    obtain ⟨j, hj, rfl⟩ := exists_get?_of_fetch? hi
    obtain ⟨pops, pushes, heffect, hle, hlength⟩ := hdoes.stackEffect
    have hgoes : j.op.flow.goesOn = true := j.moves_expanded.1 ▸ hdoes.goesOn
    refine ⟨?_, hresume⟩
    exact .next hhere ⟨hj, pops, pushes, Instruction.stackEffect_said.mp heffect, hle, hlength⟩
      hgoes hnext
  | @jump _ _ i args stack _ _ _ hi hflow heffect _ ht =>
    refine ⟨?_, hresume⟩
    have harrives := arrives_of_mem_targets hhere hi heffect
      (List.length_append ▸ Nat.le_add_right _ _) (by rcases hflow with h | h <;> rw [h] <;> rfl)
      (List.mem_of_getElem? ht)
    have hleave : i.op.flow ≠ .leave := by rcases hflow with h | h <;> rw [h] <;> nofun
    rwa [if_neg hleave, List.length_append, Nat.add_sub_cancel_left] at harrives
  | @stay _ _ i args stack _ _ hi hflow heffect _ hnext =>
    obtain ⟨j, hj, rfl⟩ := exists_get?_of_fetch? hi
    have hgoes : j.op.flow.goesOn = true := by
      rw [← j.moves_expanded.1]
      rcases hflow with h | h <;> exact h ▸ rfl
    refine ⟨.next hhere ⟨hj, _, _, Instruction.stackEffect_said.mp heffect, ?_, ?_⟩ hgoes hnext,
      hresume⟩
    · exact List.length_append ▸ Nat.le_add_right _ _
    · rw [List.length_append, Nat.add_sub_cancel_left, Nat.add_zero]
  | @branch _ _ i stack _ _ hi hflow ht =>
    refine ⟨?_, hresume⟩
    have harrives := arrives_of_mem_targets hhere hi
      (Instruction.stackEffect_of_fixed (Instruction.stack_of_branch (.inl hflow))) (Nat.zero_le _)
      (by rw [hflow]; rfl) (ht ▸ List.mem_singleton_self _)
    rwa [hflow, if_neg nofun] at harrives
  | @leave _ id' target i stack _ _ rest hi hflow ht hout =>
    have htarget : b.Arrives refs returnType target 0 := by
      have harrives := arrives_of_mem_targets hhere hi
        (Instruction.stackEffect_of_fixed (Instruction.stack_of_branch (.inr hflow)))
        (Nat.zero_le _) (by rw [hflow]; rfl) (ht ▸ List.mem_singleton_self _)
      rwa [if_pos hflow] at harrives
    have hall : ∀ x ∈ id' :: rest, b.Arrives refs returnType x 0 := by
      intro x hx
      rw [← hout, List.mem_append, List.mem_singleton] at hx
      rcases hx with hx | rfl
      · exact arrives_of_mem_finallyBetween hx
      · exact htarget
    refine ⟨hall id' List.mem_cons_self, fun id hid => ?_⟩
    rcases List.mem_append.mp hid with hid | hid
    · exact hall id (List.mem_cons_of_mem _ hid)
    · exact hresume id hid
  | endFinally hi hop =>
    exact ⟨hresume _ List.mem_cons_self, fun id hid => hresume id (List.mem_cons_of_mem _ hid)⟩

theorem Steps.preserves {P : State δ ρ → Prop} {s s' : State δ ρ}
    (h : Steps w b refs returnType s s')
    (hstep : ∀ s s', P s → Step w b refs returnType s s' → P s') (hs : P s) : P s' := by
  induction h with
  | refl => exact hs
  | head hone _ ih => exact ih (hstep _ _ hs hone)

theorem Starts.expected {arguments : List (Value δ)} {heap : Heap δ ρ} {s : State δ ρ}
    (h : Starts w b arguments heap s) : Expected b refs returnType s := by
  obtain ⟨id, hfirst, rfl⟩ := h
  exact ⟨.entry (.first hfirst), fun _ hid => absurd hid List.not_mem_nil⟩

/-- Wherever a run of a body is, control can come there with what is on its stack. -/
theorem Steps.arrives {arguments : List (Value δ)} {heap : Heap δ ρ} {s s' : State δ ρ}
    (hs : Starts w b arguments heap s) (h : Steps w b refs returnType s s') :
    b.Arrives refs returnType s'.here s'.stack.length :=
  (h.preserves (fun _ _ => Expected.step) hs.expected).here

end Execution

end CilWeave
