import CilWeave.Proofs.Execution.Straight

/-
A body whose field accesses go through accessors runs as it did.

`Rerouted` is what a body and its rewritten form have in common: every instruction is
kept, or replaced by the code that does the same through an accessor (`Route`). An
instruction that is handed the address of a field is reached from nowhere else, so
between the two bodies the states are the same, except in front of such an instruction,
where a scratch local stands in for the field (`Matches`). `Rerouted.step` takes one step
of the body to some steps of the rewritten one, and `Rerouted.runs` a whole run.
-/

namespace CilWeave

namespace Execution

variable {δ ρ : Type} {w : World δ ρ} {b b' : MethodBody} {refs refs' : ReferenceTable}
  {returnType : TypeSig}

/-! ## What an instruction can only do -/

section Inversion

variable {i : Instruction} {t : Token} {field : FieldRef} {stack stack' : List (Value δ)}
  {m m' : Memory δ ρ}

/-- To access a field that only objects have is nothing that the world does. -/
theorem World.OnObjects.not_performs {meaning : Meaning}
    {args contents results contents' : List (Value δ)} {heap heap' : Heap δ ρ} (hobjects : w.OnObjects field) (hop : i.op.accessesField = true)
    (hoperand : i.operand = .token t) (hgrows : refs.GrowsTo refs')
    (hfield : refs'.field t = .ok field) (hmeaning : meaning? refs i.operand = some meaning) :
    ¬ w.performs i.op meaning args contents heap results contents' heap' := by
  have hnames := meaning?_of_get (ReferenceTable.field_iff.mp hfield)
  rw [← hoperand, hgrows.meaning?_eq_some hmeaning] at hnames
  cases hnames
  exact hobjects _ _ _ _ _ _ _ hop

theorem Does.of_ldfld (h : Does w refs returnType i stack m stack' m') (hop : i.op = .ldfld)
    (hoperand : i.operand = .token t) (hgrows : refs.GrowsTo refs')
    (hfield : refs'.field t = .ok field) (hobjects : w.OnObjects field) :
    ∃ o v rest, stack = .object o :: rest ∧ m.read (.ofField o field.name) = some v ∧
      stack' = v :: rest ∧ m' = m := by
  cases h with
  | @loadField t₁ field₁ o v rest _ _ hoperand₁ hfield₁ hread =>
    rw [hoperand] at hoperand₁
    cases hoperand₁
    rw [hgrows.field_eq_ok hfield₁] at hfield
    cases hfield
    exact ⟨o, v, rest, rfl, hread, rfl, rfl⟩
  | perform _ _ _ _ hmeaning _ hperforms =>
    exact absurd hperforms
      (hobjects.not_performs (by rw [hop]; rfl) hoperand hgrows hfield hmeaning)
  | _ => simp_all [Instruction.loads?, Instruction.stores?, Instruction.addresses?, OpCode.isCall]

theorem Does.of_stfld (h : Does w refs returnType i stack m stack' m') (hop : i.op = .stfld)
    (hoperand : i.operand = .token t) (hgrows : refs.GrowsTo refs')
    (hfield : refs'.field t = .ok field) (hobjects : w.OnObjects field) :
    ∃ o v old rest, stack = v :: .object o :: rest ∧
      m.read (.ofField o field.name) = some old ∧ stack' = rest ∧
      m' = m.put v (.ofField o field.name) := by
  cases h with
  | @storeField t₁ field₁ o old v rest _ _ hoperand₁ hfield₁ hread =>
    rw [hoperand] at hoperand₁
    cases hoperand₁
    rw [hgrows.field_eq_ok hfield₁] at hfield
    cases hfield
    exact ⟨o, v, old, _, rfl, hread, rfl, rfl⟩
  | perform _ _ _ _ hmeaning _ hperforms =>
    exact absurd hperforms
      (hobjects.not_performs (by rw [hop]; rfl) hoperand hgrows hfield hmeaning)
  | _ => simp_all [Instruction.loads?, Instruction.stores?, Instruction.addresses?, OpCode.isCall]

theorem Does.of_ldflda (h : Does w refs returnType i stack m stack' m') (hop : i.op = .ldflda)
    (hoperand : i.operand = .token t) (hgrows : refs.GrowsTo refs')
    (hfield : refs'.field t = .ok field) (hobjects : w.OnObjects field) :
    ∃ o old rest, stack = .object o :: rest ∧ m.read (.ofField o field.name) = some old ∧
      stack' = .pointer (.ofField o field.name) :: rest ∧ m' = m := by
  cases h with
  | @addressField t₁ field₁ o old rest _ _ hoperand₁ hfield₁ hread =>
    rw [hoperand] at hoperand₁
    cases hoperand₁
    rw [hgrows.field_eq_ok hfield₁] at hfield
    cases hfield
    exact ⟨o, old, rest, rfl, hread, rfl, rfl⟩
  | perform _ _ _ _ hmeaning _ hperforms =>
    exact absurd hperforms
      (hobjects.not_performs (by rw [hop]; rfl) hoperand hgrows hfield hmeaning)
  | _ => simp_all [Instruction.loads?, Instruction.stores?, Instruction.addresses?, OpCode.isCall]

/-- A method that takes one address does nothing but to update what is there. -/
theorem Does.of_takesAddress {method : MethodRef} {l : Location} {rest : List (Value δ)}
    (h : Does w refs returnType i (.pointer l :: rest) m stack' m') (hcall : i.op.isCall = true)
    (hgrows : refs.GrowsTo refs') (hmethod : i.calledMethod refs' = .ok method)
    (htakes : TakesAddress method) :
    ∃ old v, m.read l = some old ∧ w.updates method m.heap old v ∧ stack' = rest ∧
      m' = m.put v l := by
  have same : ∀ {method' : MethodRef}, i.calledMethod refs = .ok method' → method' = method := by
    intro method' h'
    rw [hgrows.calledMethod_eq_ok h'] at hmethod
    cases hmethod
    rfl
  generalize hstack : (Value.pointer l :: rest) = stack at h
  cases h with
  | get _ _ _ _ => cases hstack
  | set _ hmethod' haccess _ =>
    rw [same hmethod', htakes.access?_eq_none w] at haccess
    cases haccess
  | update _ hmethod' _ hread hupdate =>
    cases hstack
    rw [same hmethod'] at hupdate
    exact ⟨_, _, hread, hupdate, rfl, rfl⟩
  | @perform meaning args contents results contents' rest' _ _ heap _ hother _ heffect _ _ _ _ _ =>
    -- It pops one value, so the address is all it is given.
    obtain ⟨method', hmethod', hpops⟩ := Instruction.calledMethod_of_stackEffect hcall heffect
    rw [same hmethod', htakes.pops_eq] at hpops
    obtain ⟨a, rfl⟩ := List.length_eq_one_iff.mp hpops.symm
    cases hstack
    exact absurd rfl ((hother hcall method (same hmethod' ▸ hmethod')).2 htakes l)
  | _ =>
    rcases OpCode.of_isCall hcall with hop | hop <;>
      simp_all [Instruction.loads?, Instruction.stores?, Instruction.addresses?]

end Inversion

/-! ## Routes -/

/-- What comes at `y`, where a call is handed the address of the scratch local `index` in
place of that of a field: what the call leaves there is written back. -/
structure WritesBack (w : World δ ρ) (b b' : MethodBody) (refs : ReferenceTable)
    (handed : InstrId → Prop) (y : InstrId) (name : String) (index : UInt16)
    (call set : Instruction) (method : MethodRef) : Prop where
  fetch : b.fetch? y = some call
  isCall : call.op.isCall = true
  calls : call.calledMethod refs = .ok method
  takes : TakesAddress method
  writes : Accesses w refs .write set
  stands : ∀ z, b.code.next? y = some z →
    Stands b' y [call, .ldstr name, .ldloc index, set] z ∧ ¬ handed z

theorem WritesBack.flow {handed : InstrId → Prop} {y : InstrId} {name : String} {index : UInt16}
    {call set : Instruction} {method : MethodRef}
    (h : WritesBack w b b' refs handed y name index call set method) : call.op.flow = .call := by
  rcases OpCode.of_isCall h.isCall with hop | hop <;> rw [hop] <;> rfl

/-- How the rewritten body does what the instruction `i` of a handle did. No route but the
last leads to a handle that is handed an address. -/
inductive Route (w : World δ ρ) (b b' : MethodBody) (refs : ReferenceTable)
    (handed : InstrId → Prop) (id : InstrId) (i : Instruction) : Prop where
  | kept : b'.fetch? id = some i →
      (∀ y, b.code.next? id = some y → b'.code.next? id = some y ∧ ¬ handed y) →
      Route w b b' refs handed id i
  | load {t : Token} {field : FieldRef} {get : Instruction} : i.op = .ldfld →
      i.operand = .token t → refs.field t = .ok field → w.OnObjects field →
      Accesses w refs .read get →
      (∀ y, b.code.next? id = some y → Stands b' id [.ldstr field.name, get] y ∧ ¬ handed y) →
      Route w b b' refs handed id i
  | store {t : Token} {field : FieldRef} {index : UInt16} {set : Instruction} :
      i.op = .stfld → i.operand = .token t → refs.field t = .ok field → w.OnObjects field →
      Accesses w refs .write set → IsScratch index b.locals.size b'.locals.size →
      (∀ y, b.code.next? id = some y →
        Stands b' id [.stloc index, .ldstr field.name, .ldloc index, set] y ∧ ¬ handed y) →
      Route w b b' refs handed id i
  | address {t : Token} {field : FieldRef} {index : UInt16} {y : InstrId}
      {get set call : Instruction} {method : MethodRef} : i.op = .ldflda →
      i.operand = .token t → refs.field t = .ok field → w.OnObjects field →
      Accesses w refs .read get → IsScratch index b.locals.size b'.locals.size →
      b.code.next? id = some y →
      Stands b' id [.plain .dup, .ldstr field.name, get, .stloc index, .ldloca index] y →
      WritesBack w b b' refs handed y field.name index call set method →
      Route w b b' refs handed id i

/-- `b'` does what `b` does, with some field accesses through accessors; the handles that
are handed an address are only ever reached from the instruction in front of them. -/
structure Rerouted (w : World δ ρ) (b b' : MethodBody) (refs refs' : ReferenceTable)
    (handed : InstrId → Prop) : Prop where
  references : refs.GrowsTo refs'
  locals : b.locals.toList <+: b'.locals.toList
  first : b'.code.first? = b.code.first?
  start : ∀ id, b.code.first? = some id → ¬ handed id
  targets : ∀ id i, b.fetch? id = some i → ∀ t ∈ i.targets, ¬ handed t
  handlers : ∀ h ∈ b.handlers, ¬ handed h.handlerStart
  finallyBetween : ∀ id i, b.fetch? id = some i → ∀ t ∈ i.targets,
    b'.finallyBetween id t = b.finallyBetween id t
  route : ∀ id i, b.fetch? id = some i → ¬ handed id → Route w b b' refs' handed id i

/-! ## The simulation -/

/-- The states of the two bodies that go together. -/
inductive Matches (w : World δ ρ) (b b' : MethodBody) (refs : ReferenceTable)
    (handed : InstrId → Prop) : State δ ρ → State δ ρ → Prop where
  | same {id : InstrId} {stack extra : List (Value δ)} {m : Memory δ ρ}
      {resume : List InstrId} : ¬ handed id → (∀ x ∈ resume, ¬ handed x) →
      m.locals.length = b.locals.size → m.locals.length + extra.length = b'.locals.size →
      Matches w b b' refs handed ⟨id, stack, m, resume⟩ ⟨id, stack, m.pad extra, resume⟩
  | lent {y : InstrId} {name : String} {index : UInt16} {call set : Instruction}
      {method : MethodRef} {o : Nat} {old : Value δ} {stack extra : List (Value δ)}
      {m : Memory δ ρ} {resume : List InstrId} :
      WritesBack w b b' refs handed y name index call set method →
      IsScratch index b.locals.size b'.locals.size →
      m.read (.ofField o name) = some old →
      (m.pad extra).read (.ofLocal index.toNat) = some old → (∀ x ∈ resume, ¬ handed x) →
      m.locals.length = b.locals.size → m.locals.length + extra.length = b'.locals.size →
      Matches w b b' refs handed ⟨y, .pointer (.ofField o name) :: stack, m, resume⟩
        ⟨y, .pointer (.ofLocal index.toNat) :: .object o :: stack, m.pad extra, resume⟩

namespace Rerouted

variable {handed : InstrId → Prop}

theorem not_handed_finallyBetween (h : Rerouted w b b' refs refs' handed) {id target x : InstrId}
    (hx : x ∈ b.finallyBetween id target) : ¬ handed x := by
  obtain ⟨handler, hmem, rfl⟩ := List.mem_map.mp hx
  exact h.handlers handler (List.mem_filter.mp hmem).1

/-- An instruction that was kept takes the same step in the rewritten body. -/
theorem step_kept (h : Rerouted w b b' refs refs' handed) {id : InstrId} {i : Instruction}
    {stack extra : List (Value δ)} {m : Memory δ ρ} {resume : List InstrId} {s : State δ ρ}
    (hi : b.fetch? id = some i) (hi' : b'.fetch? id = some i)
    (hnext : ∀ y, b.code.next? id = some y → b'.code.next? id = some y ∧ ¬ handed y)
    (hresume : ∀ x ∈ resume, ¬ handed x) (hm : m.locals.length = b.locals.size)
    (hextra : m.locals.length + extra.length = b'.locals.size)
    (hstep : Step w b refs returnType ⟨id, stack, m, resume⟩ s) :
    ∃ s', Step w b' refs' returnType ⟨id, stack, m.pad extra, resume⟩ s' ∧
      Matches w b b' refs' handed s s' := by
  cases hstep with
  | next hfetch hdoes hy =>
    rw [hi] at hfetch
    cases hfetch
    obtain ⟨hy', hnot⟩ := hnext _ hy
    have hlength := hdoes.length_locals
    exact ⟨_, .next hi' (hdoes.pad h.references extra) hy',
      .same hnot hresume (hlength.trans hm) (hlength ▸ hextra)⟩
  | jump hfetch hflow heffect hdecides htarget =>
    rw [hi] at hfetch
    cases hfetch
    have hnot := h.targets id i hi _ (List.mem_of_getElem? htarget)
    exact ⟨_, .jump hi' hflow (h.references.stackEffect_eq_ok heffect) hdecides htarget,
      .same hnot hresume hm hextra⟩
  | stay hfetch hflow heffect hdecides hy =>
    rw [hi] at hfetch
    cases hfetch
    obtain ⟨hy', hnot⟩ := hnext _ hy
    exact ⟨_, .stay hi' hflow (h.references.stackEffect_eq_ok heffect) hdecides hy',
      .same hnot hresume hm hextra⟩
  | branch hfetch hflow htargets =>
    rw [hi] at hfetch
    cases hfetch
    have hnot := h.targets id i hi _ (htargets ▸ List.mem_singleton_self _)
    exact ⟨_, .branch hi' hflow htargets, .same hnot hresume hm hextra⟩
  | @leave _ id' target _ _ _ _ rest hfetch hflow htargets hway =>
    rw [hi] at hfetch
    cases hfetch
    -- The way out leads through the same handlers, none of which is handed an address.
    have htarget : target ∈ i.targets := htargets ▸ List.mem_singleton_self _
    have hway' := hway
    rw [← h.finallyBetween id i hi target htarget] at hway'
    have hnot : ∀ x ∈ id' :: rest, ¬ handed x := by
      intro x hx
      rw [← hway] at hx
      rcases List.mem_append.mp hx with hx | hx
      · exact h.not_handed_finallyBetween hx
      · rw [List.mem_singleton.mp hx]
        exact h.targets id i hi target htarget
    refine ⟨_, .leave hi' hflow htargets hway', .same (hnot id' (List.mem_cons_self ..)) ?_ hm
      hextra⟩
    intro x hx
    rcases List.mem_append.mp hx with hx | hx
    · exact hnot x (List.mem_cons_of_mem id' hx)
    · exact hresume x hx
  | @endFinally _ id' _ _ _ rest hfetch hop =>
    rw [hi] at hfetch
    cases hfetch
    exact ⟨_, .endFinally hi' hop, .same (hresume id' (List.mem_cons_self ..))
      (fun x hx => hresume x (List.mem_cons_of_mem id' hx)) hm hextra⟩

/-- One step of the body is some steps of the rewritten one. -/
theorem step (h : Rerouted w b b' refs refs' handed) {s s' t : State δ ρ}
    (hmatch : Matches w b b' refs' handed s t) (hstep : Step w b refs returnType s s') :
    ∃ t', Steps w b' refs' returnType t t' ∧ Matches w b b' refs' handed s' t' := by
  cases hmatch with
  | @same id stack extra m resume hnot hresume hm hextra =>
    obtain ⟨i, hi⟩ := hstep.fetch
    have scratch : ∀ {index : UInt16}, IsScratch index b.locals.size b'.locals.size →
        IsScratch index m.locals.length (m.locals.length + extra.length) := by
      intro index hindex
      rw [hextra, hm]
      exact hindex
    have length_set : ∀ {n : Nat} {v : Value δ},
        m.locals.length + (extra.set n v).length = b'.locals.size := by
      intro n v
      rw [List.length_set]
      exact hextra
    cases h.route id i hi hnot with
    | kept hi' hnext =>
      obtain ⟨t', hstep', hmatch'⟩ := h.step_kept hi hi' hnext hresume hm hextra hstep
      exact ⟨t', .one hstep', hmatch'⟩
    -- A replaced access goes on to the next instruction, so the step is what it does.
    | load hop hoperand hfield hobjects hget hroute =>
      obtain ⟨y, _, _, hdoes, hy, rfl⟩ := hstep.goes_on hi (.inl (by rw [hop]; rfl))
      obtain ⟨o, v, rest, rfl, hread, rfl, rfl⟩ :=
        hdoes.of_ldfld hop hoperand h.references hfield hobjects
      obtain ⟨hstands, hnot'⟩ := hroute y hy
      exact ⟨_, hstands.steps resume (doesEach_load hget (Memory.read_pad hread)),
        .same hnot' hresume hm hextra⟩
    | store hop hoperand hfield hobjects hset hindex hroute =>
      obtain ⟨y, _, _, hdoes, hy, rfl⟩ := hstep.goes_on hi (.inl (by rw [hop]; rfl))
      obtain ⟨o, v, old, rest, rfl, hread, rfl, rfl⟩ :=
        hdoes.of_stfld hop hoperand h.references hfield hobjects
      obtain ⟨hstands, hnot'⟩ := hroute y hy
      exact ⟨_, hstands.steps resume (doesEach_store hset (scratch hindex) hread),
        .same hnot' hresume hm length_set⟩
    | @address t field index y get set call method hop hoperand hfield hobjects hget hindex hy
        hstands hback =>
      obtain ⟨y', _, _, hdoes, hy', rfl⟩ := hstep.goes_on hi (.inl (by rw [hop]; rfl))
      rw [hy] at hy'
      cases hy'
      obtain ⟨o, v, rest, rfl, hread, rfl, rfl⟩ :=
        hdoes.of_ldflda hop hoperand h.references hfield hobjects
      exact ⟨_, hstands.steps resume (doesEach_lend hget (scratch hindex) hread),
        .lent hback hindex hread (scratch hindex).read_set hresume hm length_set⟩
  | @lent y name index call set method o old stack extra m resume hback hindex hread hlent hresume
      hm hextra =>
    -- The call can only update what it is handed: the field here, the scratch local there.
    obtain ⟨z, _, _, hdoes, hz, rfl⟩ := hstep.goes_on hback.fetch (.inr hback.flow)
    obtain ⟨old', v, hold, hupdate, rfl, rfl⟩ :=
      hdoes.of_takesAddress hback.isCall h.references hback.calls hback.takes
    rw [hread] at hold
    cases hold
    obtain ⟨hstands, hnot⟩ := hback.stands z hz
    have hscratch : IsScratch index m.locals.length (m.locals.length + extra.length) := by
      rw [hextra, hm]
      exact hindex
    refine ⟨_, hstands.steps resume (doesEach_return hback.writes hscratch hback.isCall hback.calls
      hback.takes hread hlent hupdate), .same hnot hresume (Memory.length_put.trans hm) ?_⟩
    rw [Memory.length_put, List.length_set]
    exact hextra

/-- A run of the body is a run of the rewritten one. -/
theorem steps (h : Rerouted w b b' refs refs' handed) {s s' : State δ ρ}
    (hsteps : Steps w b refs returnType s s') : ∀ {t : State δ ρ},
    Matches w b b' refs' handed s t →
    ∃ t', Steps w b' refs' returnType t t' ∧ Matches w b b' refs' handed s' t' := by
  induction hsteps with
  | refl s => exact fun {t} hmatch => ⟨t, .refl t, hmatch⟩
  | head hstep _ ih =>
    intro t hmatch
    obtain ⟨t₁, hsteps₁, hmatch₁⟩ := h.step hmatch hstep
    obtain ⟨t', hsteps', hmatch'⟩ := ih hmatch₁
    exact ⟨t', hsteps₁.trans hsteps', hmatch'⟩

/-- Where the body returns, the rewritten one does too. -/
theorem returns (h : Rerouted w b b' refs refs' handed) {s t : State δ ρ}
    {returned : List (Value δ)} (hmatch : Matches w b b' refs' handed s t)
    (hreturns : Returns b returnType s returned) :
    Returns b' returnType t returned ∧ ∃ extra, t.memory = s.memory.pad extra := by
  obtain ⟨i, below, hi, hop, hstack, hlength⟩ := hreturns
  cases hmatch with
  | @same id stack extra m resume hnot hresume hm hextra =>
    cases h.route id i hi hnot with
    | kept hi' _ => exact ⟨⟨i, below, hi', hop, hstack, hlength⟩, extra, rfl⟩
    | load hop' | store hop' | address hop' =>
      rw [hop] at hop'
      cases hop'
  | lent hback =>
    rw [hback.fetch] at hi
    cases hi
    have hcall := hback.isCall
    rw [hop] at hcall
    cases hcall

/-- A call of the body that ends, ends in the rewritten body with the same result; the
memory has more locals there and is otherwise the same. -/
theorem runs (h : Rerouted w b b' refs refs' handed) {arguments returned : List (Value δ)}
    {heap : Heap δ ρ} {final : Memory δ ρ}
    (hruns : Runs w b refs returnType arguments heap returned final) :
    ∃ extra, Runs w b' refs' returnType arguments heap returned (final.pad extra) := by
  obtain ⟨s, s', ⟨id, hid, rfl⟩, hsteps, hreturns, rfl⟩ := hruns
  obtain ⟨more, hmore⟩ := h.locals
  have hsize : b'.locals.size = b.locals.size + more.length := by
    have hlength := congrArg List.length hmore
    rw [List.length_append, Array.length_toList, Array.length_toList] at hlength
    exact hlength.symm
  have hmatch : Matches w b b' refs' handed
      ⟨id, [], ⟨arguments, b.locals.toList.map w.initial, heap⟩, []⟩
      ⟨id, [], ⟨arguments, b'.locals.toList.map w.initial, heap⟩, []⟩ := by
    rw [← hmore, List.map_append]
    refine .same (h.start id hid) nofun ?_ ?_
    · rw [List.length_map, Array.length_toList]
    · rw [List.length_map, List.length_map, Array.length_toList, hsize]
  obtain ⟨t', hsteps', hmatch'⟩ := h.steps hsteps hmatch
  obtain ⟨hreturns', extra, hextra⟩ := h.returns hmatch' hreturns
  exact ⟨extra, _, t', ⟨id, h.first.trans hid, rfl⟩, hsteps', hreturns', hextra⟩

end Rerouted

end Execution

end CilWeave
