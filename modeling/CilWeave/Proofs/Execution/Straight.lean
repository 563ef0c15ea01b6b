import CilWeave.Proofs.Execution.Depth
import CilWeave.Proofs.Execution.Padding

/-
Straight code, and the code that goes through accessors.

`Stands` says that some instructions stand one behind the other from a handle on, and
`DoesEach` what they make of the stack and the memory; together they are a run
(`Stands.steps`). The pieces of code that load and store a field by its name, and that
lend out a local in place of a field, are run here once, whatever is around them.
-/

namespace CilWeave

namespace Execution

variable {δ ρ : Type} {w : World δ ρ} {b : MethodBody} {refs : ReferenceTable}
  {returnType : TypeSig}

/-! ## Steps -/

theorem Steps.trans {s s' s'' : State δ ρ} (h : Steps w b refs returnType s s')
    (h' : Steps w b refs returnType s' s'') : Steps w b refs returnType s s'' := by
  induction h with
  | refl => exact h'
  | head hstep _ ih => exact .head hstep (ih h')

theorem Steps.one {s s' : State δ ρ} (h : Step w b refs returnType s s') :
    Steps w b refs returnType s s' := .head h (.refl s')

theorem Step.fetch {s s' : State δ ρ} (h : Step w b refs returnType s s') :
    ∃ i, b.fetch? s.here = some i := by
  cases h with
  | next hi | jump hi | stay hi | branch hi | leave hi | endFinally hi => exact ⟨_, hi⟩

/-- An instruction that does not jump goes on to the next one. -/
theorem Step.goes_on {id : InstrId} {i : Instruction} {stack : List (Value δ)} {m : Memory δ ρ}
    {resume : List InstrId} {s : State δ ρ} (hi : b.fetch? id = some i)
    (hflow : i.op.flow = .sequential ∨ i.op.flow = .call)
    (h : Step w b refs returnType ⟨id, stack, m, resume⟩ s) :
    ∃ id' stack' m', Does w refs returnType i stack m stack' m' ∧
      b.code.next? id = some id' ∧ s = ⟨id', stack', m', resume⟩ := by
  cases h with
  | next hi' hdoes hnext =>
    rw [hi] at hi'
    cases hi'
    exact ⟨_, _, _, hdoes, hnext, rfl⟩
  | endFinally hi' hop =>
    rw [hi] at hi'
    cases hi'
    rw [hop] at hflow
    rcases hflow with h | h <;> cases h
  | jump hi' hflow' | stay hi' hflow' | branch hi' hflow' | leave hi' hflow' =>
    rw [hi] at hi'
    cases hi'
    rcases hflow with h | h <;> simp_all

theorem not_step_of_ret {s s' : State δ ρ} {i : Instruction} (hi : b.fetch? s.here = some i)
    (hop : i.op = .ret) : ¬ Step w b refs returnType s s' := by
  have hflow : i.op.flow = .return := hop ▸ rfl
  intro h
  cases h with
  | next hi' hdoes =>
    rw [hi] at hi'
    cases hi'
    have hgoes := hdoes.goesOn
    rw [hflow] at hgoes
    cases hgoes
  | endFinally hi' hop' =>
    rw [hi] at hi'
    cases hi'
    rw [hop] at hop'
    cases hop'
  | jump hi' hflow' | stay hi' hflow' =>
    rw [hi] at hi'
    cases hi'
    rw [hflow] at hflow'
    rcases hflow' with h | h <;> cases h
  | branch hi' hflow' | leave hi' hflow' =>
    rw [hi] at hi'
    cases hi'
    rw [hflow] at hflow'
    cases hflow'

theorem Steps.eq_of_ret {s s' : State δ ρ} {i : Instruction} (hi : b.fetch? s.here = some i)
    (hop : i.op = .ret) (h : Steps w b refs returnType s s') : s' = s := by
  cases h with
  | refl => rfl
  | head hstep => exact absurd hstep (not_step_of_ret hi hop)

/-! ## Loads -/

theorem does_load_iff {i : Instruction} {l : Location} {stack stack' : List (Value δ)}
    {m m' : Memory δ ρ} (hl : i.loads? = some l) :
    Does w refs returnType i stack m stack' m' ↔
      ∃ v, m.read l = some v ∧ stack' = v :: stack ∧ m' = m := by
  have hop := Instruction.op_of_loads? hl
  constructor
  · intro h
    cases h with
    | load hl' hread =>
      rw [hl] at hl'
      cases hl'
      exact ⟨_, hread, rfl, rfl⟩
    | _ => rcases hop with hop | hop <;> simp_all [Instruction.stores?, Instruction.addresses?,
        OpCode.isCall, OpCode.isForeign]
  · rintro ⟨v, hv, rfl, rfl⟩
    exact .load hl hv

/-- Some instructions stand from a handle on, and `last` is the handle behind them. -/
inductive Stands (b : MethodBody) : InstrId → List Instruction → InstrId → Prop where
  | nil (id : InstrId) : Stands b id [] id
  | cons {id id' last : InstrId} {i : Instruction} {code : List Instruction} :
      b.fetch? id = some i → b.code.next? id = some id' → Stands b id' code last →
      Stands b id (i :: code) last

/-- What some instructions make of the stack and the memory, one after the other. -/
inductive DoesEach (w : World δ ρ) (refs : ReferenceTable) (returnType : TypeSig) :
    List Instruction → List (Value δ) → Memory δ ρ → List (Value δ) → Memory δ ρ → Prop where
  | nil (stack : List (Value δ)) (m : Memory δ ρ) : DoesEach w refs returnType [] stack m stack m
  | cons {i : Instruction} {code : List Instruction} {stack stack' stack'' : List (Value δ)}
      {m m' m'' : Memory δ ρ} : Does w refs returnType i stack m stack' m' →
      DoesEach w refs returnType code stack' m' stack'' m'' →
      DoesEach w refs returnType (i :: code) stack m stack'' m''

/-- Straight code is run from its start to the handle behind it. -/
theorem Stands.steps {id last : InstrId} {code : List Instruction}
    (h : Stands b id code last) : ∀ {stack stack' : List (Value δ)} {m m' : Memory δ ρ}
    (resume : List InstrId), DoesEach w refs returnType code stack m stack' m' →
    Steps w b refs returnType ⟨id, stack, m, resume⟩ ⟨last, stack', m', resume⟩ := by
  induction h with
  | nil id =>
    intro stack stack' m m' resume hdoes
    cases hdoes
    exact .refl _
  | cons hfetch hnext _ ih =>
    intro stack stack' m m' resume hdoes
    cases hdoes with
    | cons hfirst hrest => exact .head (.next hfetch hfirst hnext) (ih resume hrest)

theorem fetch?_of_rephrases {b' : MethodBody} (h : b'.Rephrases b) (id : InstrId) :
    b'.fetch? id = b.fetch? id := by
  unfold MethodBody.fetch?
  cases hi : b.code.get? id with
  | none =>
    have hnot : id ∉ b'.code.ids := fun hid => by
      obtain ⟨i, hi'⟩ := InstructionList.get?_of_mem (h.ids ▸ hid)
      rw [hi] at hi'
      cases hi'
    rw [InstructionList.get?_eq_none hnot, Option.map_none]
  | some i =>
    obtain ⟨i', hi'⟩ := InstructionList.get?_of_mem (h.ids ▸ InstructionList.mem_ids_of_get? hi)
    rw [hi', Option.map_some, Option.map_some, Instruction.saysSame_iff.mp (h.same id i i' hi hi')]

/-- The handles of a body and what its instructions say, in the order of the code. -/
structure Reads (b : MethodBody) (es : List (InstrId × Instruction)) : Prop where
  ids : b.code.ids = es.map Prod.fst
  fetch : ∀ e ∈ es, b.fetch? e.1 = some e.2.said

namespace Reads

variable {es front tail : List (InstrId × Instruction)} {x y : InstrId × Instruction}

theorem self (b : MethodBody) : Reads b b.code.entries where
  ids := b.code.map_fst_entries.symm
  fetch := by
    rintro ⟨id, i⟩ he
    unfold MethodBody.fetch?
    rw [InstructionList.mem_entries.mp he, Option.map_some]

theorem of_rephrases {b' : MethodBody} (h : b'.Rephrases b) : Reads b' b.code.entries where
  ids := h.ids.trans b.code.map_fst_entries.symm
  fetch e he := (fetch?_of_rephrases h e.1).trans ((self b).fetch e he)

theorem said_eq {es' : List (InstrId × Instruction)} (h : Reads b es) (h' : Reads b es') :
    es.map (fun e => e.2.said) = es'.map fun e => e.2.said := by
  have fetched : ∀ {es : List (InstrId × Instruction)}, Reads b es →
      (es.map fun e => e.2.said).map some = b.code.ids.map b.fetch? := by
    intro es h
    rw [h.ids, List.map_map, List.map_map]
    exact List.map_congr_left fun e he => (h.fetch e he).symm
  exact (List.map_inj_right fun _ _ => Option.some.inj).mp ((fetched h).trans (fetched h').symm)

theorem next?_eq (h : Reads b es) (hes : es = front ++ x :: tail) :
    b.code.next? x.1 = (tail.map Prod.fst).head? := by
  have hids : b.code.ids = front.map Prod.fst ++ x.1 :: tail.map Prod.fst := by
    rw [h.ids, hes, List.map_append, List.map_cons]
  exact InstructionList.next?_of_split hids

/-- What comes one behind the other in the code stands so. -/
theorem stands (h : Reads b es) : ∀ {code front : List (InstrId × Instruction)}
    {x : InstrId × Instruction}, es = front ++ x :: (code ++ y :: tail) →
    Stands b x.1 ((x :: code).map fun e => e.2.said) y.1
  | [], front, x, hes => .cons (h.fetch x (by simp [hes])) (h.next?_eq hes) (.nil y.1)
  | e :: code, front, x, hes => by
    have hes' : es = (front ++ [x]) ++ e :: (code ++ y :: tail) := by simp [hes]
    exact .cons (h.fetch x (by simp [hes])) (h.next?_eq hes) (h.stands hes')

theorem stands_first (h : Reads b (es ++ y :: tail)) :
    ∃ first, b.code.first? = some first ∧ Stands b first (es.map fun e => e.2.said) y.1 := by
  cases es with
  | nil =>
    refine ⟨y.1, ?_, .nil y.1⟩
    rw [InstructionList.first?_eq, h.ids]
    rfl
  | cons x code =>
    have hes : x :: code ++ y :: tail = [] ++ x :: (code ++ y :: tail) := rfl
    refine ⟨x.1, ?_, h.stands hes⟩
    rw [InstructionList.first?_eq, h.ids]
    rfl

end Reads

theorem Stands.append {id mid last : InstrId} {code code' : List Instruction}
    (h : Stands b id code mid) (h' : Stands b mid code' last) :
    Stands b id (code ++ code') last := by
  induction h with
  | nil => exact h'
  | cons hfetch hnext _ ih => exact .cons hfetch hnext (ih h')

theorem doesEach_append {code code' : List Instruction} {stack stack'' : List (Value δ)}
    {m m'' : Memory δ ρ} : DoesEach w refs returnType (code ++ code') stack m stack'' m'' ↔
      ∃ stack' m', DoesEach w refs returnType code stack m stack' m' ∧
        DoesEach w refs returnType code' stack' m' stack'' m'' := by
  constructor
  · intro h
    induction code generalizing stack m with
    | nil => exact ⟨stack, m, .nil stack m, h⟩
    | cons i code ih =>
      cases h with
      | cons hfirst hrest =>
        obtain ⟨stack', m', hcode, hcode'⟩ := ih hrest
        exact ⟨stack', m', .cons hfirst hcode, hcode'⟩
  · rintro ⟨stack', m', hcode, hcode'⟩
    induction hcode with
    | nil => exact hcode'
    | cons hfirst _ ih => exact .cons hfirst (ih hcode')

theorem doesEach_singleton {i : Instruction} {stack stack' : List (Value δ)} {m m' : Memory δ ρ} :
    DoesEach w refs returnType [i] stack m stack' m' ↔
      Does w refs returnType i stack m stack' m' := by
  constructor
  · intro h
    cases h with
    | cons hfirst hrest =>
      cases hrest
      exact hfirst
  · exact fun h => .cons h (.nil _ _)

/-- A run that is in straight code has done what is in front of where it is, or all of it and has
gone on from the handle behind it. -/
theorem Stands.cases_of_steps {id last : InstrId} {code : List Instruction}
    (h : Stands b id code last)
    (hflow : ∀ i ∈ code, i.op.flow = .sequential ∨ i.op.flow = .call) :
    ∀ {stack : List (Value δ)} {m : Memory δ ρ} {resume : List InstrId} {s : State δ ρ},
    Steps w b refs returnType ⟨id, stack, m, resume⟩ s →
    (∃ front i back, code = front ++ i :: back ∧ b.fetch? s.here = some i ∧
      DoesEach w refs returnType front stack m s.stack s.memory ∧ s.resume = resume) ∨
    ∃ stack' m', DoesEach w refs returnType code stack m stack' m' ∧
      Steps w b refs returnType ⟨last, stack', m', resume⟩ s := by
  induction h with
  | nil id =>
    intro stack m resume s hsteps
    exact .inr ⟨stack, m, .nil stack m, hsteps⟩
  | @cons id id' last i code hfetch hnext _ ih =>
    intro stack m resume s hsteps
    cases hsteps with
    | refl => exact .inl ⟨[], i, code, rfl, hfetch, .nil stack m, rfl⟩
    | head hstep hrest =>
      obtain ⟨id'', stack', m', hdoes, hnext', rfl⟩ :=
        hstep.goes_on hfetch (hflow i List.mem_cons_self)
      rw [hnext] at hnext'
      cases hnext'
      rcases ih (fun j hj => hflow j (List.mem_cons_of_mem i hj)) hrest with
        ⟨front, j, back, rfl, hj, hfront, hresume⟩ | ⟨stack'', m'', hcode, hlast⟩
      · exact .inl ⟨i :: front, j, back, rfl, hj, .cons hdoes hfront, hresume⟩
      · exact .inr ⟨stack'', m'', .cons hdoes hcode, hlast⟩

/-! ## Accessors -/

/-- An instruction that calls an accessor. -/
structure Accesses (w : World δ ρ) (refs : ReferenceTable) (access : Access) (i : Instruction) :
    Prop where
  isCall : i.op.isCall = true
  method : ∃ method, i.calledMethod refs = .ok method ∧ w.access? method = some access

/-- A handle of a local that stands behind the locals of a memory. -/
structure IsScratch (index : UInt16) (first last : Nat) : Prop where
  le : first ≤ index.toNat
  lt : index.toNat < last

variable {get set call : Instruction} {name : String} {o : Nat} {stack : List (Value δ)}
  {m : Memory δ ρ} {extra : List (Value δ)} {index : UInt16} {v old : Value δ}

theorem Accesses.doesGet (h : Accesses w refs .read get)
    (hread : m.read (.ofField o name) = some v) :
    Does w refs returnType get (.string name :: .object o :: stack) m (v :: stack) m := by
  obtain ⟨method, hmethod, haccess⟩ := h.method
  exact .get h.isCall hmethod haccess hread

theorem Accesses.doesSet (h : Accesses w refs .write set)
    (hread : m.read (.ofField o name) = some old) :
    Does w refs returnType set (v :: .string name :: .object o :: stack) m stack
      (m.put v (.ofField o name)) := by
  obtain ⟨method, hmethod, haccess⟩ := h.method
  exact .set h.isCall hmethod haccess hread

theorem does_ldstr : Does w refs returnType (.ldstr name) stack m (.string name :: stack) m :=
  .literal rfl rfl

theorem does_ldloc (hread : m.read (.ofLocal index.toNat) = some v) :
    Does w refs returnType (.ldloc index) stack m (v :: stack) m :=
  .load rfl hread

theorem does_ldloca (hread : m.read (.ofLocal index.toNat) = some v) :
    Does w refs returnType (.ldloca index) stack m (.pointer (.ofLocal index.toNat) :: stack) m :=
  .address rfl hread

section Scratch

variable (hindex : IsScratch index m.locals.length (m.locals.length + extra.length))
include hindex

theorem IsScratch.does_stloc :
    Does w refs returnType (.stloc index) (v :: stack) (m.pad extra) stack
      (m.pad (extra.set (index.toNat - m.locals.length) v)) := by
  obtain ⟨old, hold⟩ := Memory.exists_read_pad hindex.lt
  rw [← Memory.put_pad_scratch hindex.le]
  exact .store rfl hold

theorem IsScratch.read_set :
    (m.pad (extra.set (index.toNat - m.locals.length) v)).read (.ofLocal index.toNat) = some v :=
  Memory.read_pad_scratch hindex.le hindex.lt

end Scratch

/-! ## Access by name -/

theorem doesEach_load (hget : Accesses w refs .read get)
    (hread : m.read (.ofField o name) = some v) :
    DoesEach w refs returnType [.ldstr name, get] (.object o :: stack) m (v :: stack) m :=
  .cons does_ldstr (.cons (hget.doesGet hread) (.nil _ _))

/-- To store to a field by its name, with the value in a scratch local meanwhile. -/
theorem doesEach_store (hset : Accesses w refs .write set)
    (hindex : IsScratch index m.locals.length (m.locals.length + extra.length))
    (hread : m.read (.ofField o name) = some old) :
    DoesEach w refs returnType [.stloc index, .ldstr name, .ldloc index, set]
      (v :: .object o :: stack) (m.pad extra) stack
      ((m.put v (.ofField o name)).pad (extra.set (index.toNat - m.locals.length) v)) := by
  have hwrite : Does w refs returnType set (v :: .string name :: .object o :: stack)
      (m.pad (extra.set (index.toNat - m.locals.length) v)) stack
      ((m.put v (.ofField o name)).pad (extra.set (index.toNat - m.locals.length) v)) :=
    hset.doesSet (Memory.read_pad hread)
  exact .cons hindex.does_stloc (.cons does_ldstr
    (.cons (does_ldloc hindex.read_set) (.cons hwrite (.nil _ _))))

/-- To lend out a scratch local that holds what a field holds, with the object below. -/
theorem doesEach_lend (hget : Accesses w refs .read get)
    (hindex : IsScratch index m.locals.length (m.locals.length + extra.length))
    (hread : m.read (.ofField o name) = some v) :
    DoesEach w refs returnType [.plain .dup, .ldstr name, get, .stloc index, .ldloca index]
      (.object o :: stack) (m.pad extra) (.pointer (.ofLocal index.toNat) :: .object o :: stack)
      (m.pad (extra.set (index.toNat - m.locals.length) v)) := by
  have hcopy : Does w refs returnType (.plain .dup) (.object o :: stack) (m.pad extra)
      (.object o :: .object o :: stack) (m.pad extra) := .copy rfl
  exact .cons hcopy (.cons does_ldstr (.cons (hget.doesGet (Memory.read_pad hread))
    (.cons hindex.does_stloc (.cons (does_ldloca hindex.read_set) (.nil _ _)))))

/-- What a method makes of a scratch local that it was lent is written back to the field. -/
theorem doesEach_return {method : MethodRef} (hset : Accesses w refs .write set)
    (hindex : IsScratch index m.locals.length (m.locals.length + extra.length))
    (hcall : call.op.isCall = true) (hmethod : call.calledMethod refs = .ok method)
    (htakes : TakesAddress method) (hread : m.read (.ofField o name) = some old)
    (hlent : (m.pad extra).read (.ofLocal index.toNat) = some old)
    (hupdate : w.updates method m.heap old v) :
    DoesEach w refs returnType [call, .ldstr name, .ldloc index, set]
      (.pointer (.ofLocal index.toNat) :: .object o :: stack) (m.pad extra) stack
      ((m.put v (.ofField o name)).pad (extra.set (index.toNat - m.locals.length) v)) := by
  have hfirst : Does w refs returnType call
      (.pointer (.ofLocal index.toNat) :: .object o :: stack) (m.pad extra) (.object o :: stack)
      (m.pad (extra.set (index.toNat - m.locals.length) v)) := by
    rw [← Memory.put_pad_scratch hindex.le]
    exact .update hcall hmethod htakes hlent hupdate
  have hwrite : Does w refs returnType set (v :: .string name :: .object o :: stack)
      (m.pad (extra.set (index.toNat - m.locals.length) v)) stack
      ((m.put v (.ofField o name)).pad (extra.set (index.toNat - m.locals.length) v)) :=
    hset.doesSet (Memory.read_pad hread)
  exact .cons hfirst (.cons does_ldstr
    (.cons (does_ldloc hindex.read_set) (.cons hwrite (.nil _ _))))

end Execution

end CilWeave
