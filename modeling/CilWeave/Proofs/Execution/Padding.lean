import CilWeave.Proofs.Execution.Machine
import CilWeave.Proofs.References

/-
The same call with more locals.

A call whose body has more locals than it uses runs as it did: `Memory.pad` puts locals
behind those of a memory, and `Does.pad` says that what an instruction does is not
affected by them, nor by references that are added. The locals behind can be written
without the others (`Memory.put_pad_scratch`).
-/

namespace CilWeave

namespace ReferenceTable.GrowsTo

variable {refs later : ReferenceTable}

theorem meaning?_eq_some (h : refs.GrowsTo later) {operand : Operand}
    {meaning : Execution.Meaning} (hm : Execution.meaning? refs operand = some meaning) :
    Execution.meaning? later operand = some meaning := by
  unfold Execution.meaning? at hm ⊢
  split at hm
  · rename_i t
    by_cases ht : (t.isIn .memberRef || t.isIn .methodSpec) = true
    · simp only [if_pos ht] at hm ⊢
      cases hget : refs.get t with
      | error e => rw [hget] at hm; cases hm
      | ok member =>
        rw [hget] at hm
        rw [h.get_eq_ok hget]
        exact hm
    · simp only [if_neg ht] at hm ⊢
      exact hm
  · exact hm

end ReferenceTable.GrowsTo

theorem Execution.meaning?_of_get {refs : ReferenceTable} {t : Token} {member : MemberRef}
    (h : refs.get t = .ok member) : Execution.meaning? refs (.token t) = some (.member member) := by
  obtain ⟨htable, -⟩ := ReferenceTable.get_iff.mp h
  unfold Execution.meaning?
  simp only [htable, h, if_true]
  rfl

theorem Instruction.calledMethod_of_stackEffect {i : Instruction} {refs : ReferenceTable}
    {returnType : TypeSig} {pops pushes : Nat} (hcall : i.op.isCall = true)
    (h : i.stackEffect refs returnType = .ok (pops, pushes)) :
    ∃ method, i.calledMethod refs = .ok method ∧ method.pops = pops := by
  have hstack : i.op.info.stack = .call := by
    rcases OpCode.of_isCall hcall with hop | hop <;> rw [hop] <;> rfl
  unfold stackEffect at h
  rw [hstack] at h
  cases hm : i.calledMethod refs with
  | error e => rw [hm] at h; cases h
  | ok method =>
    rw [hm] at h
    cases h
    exact ⟨method, rfl, rfl⟩

namespace Execution

variable {δ ρ : Type}

/-! ## Memory with more locals -/

namespace Memory

def pad (m : Memory δ ρ) (extra : List (Value δ)) : Memory δ ρ :=
  { m with locals := m.locals ++ extra }

variable {m : Memory δ ρ} {extra : List (Value δ)} {l : Location} {v : Value δ}

theorem read_pad (h : m.read l = some v) : (m.pad extra).read l = some v := by
  cases l with
  | ofArgument n => exact h
  | ofLocal n =>
    have hlt : n < m.locals.length := (List.getElem?_eq_some_iff.mp h).1
    show (m.locals ++ extra)[n]? = some v
    rw [List.getElem?_append_left hlt]
    exact h
  | ofField object name => exact h

theorem put_pad (h : ∀ n, l = .ofLocal n → n < m.locals.length) :
    (m.pad extra).put v l = (m.put v l).pad extra := by
  cases l with
  | ofArgument n => rfl
  | ofLocal n =>
    show ({ m with locals := (m.locals ++ extra).set n v } : Memory δ ρ) = _
    rw [List.set_append_left n v (h n rfl)]
    rfl
  | ofField object name => rfl

theorem lt_of_read {old : Value δ} (h : m.read l = some old) :
    ∀ n, l = .ofLocal n → n < m.locals.length := by
  rintro n rfl
  exact (List.getElem?_eq_some_iff.mp h).1

theorem length_put : (m.put v l).locals.length = m.locals.length := by
  cases l with
  | ofArgument n => rfl
  | ofLocal n => exact List.length_set
  | ofField object name => rfl

theorem length_putEach : ∀ {ls : List Location} {vs : List (Value δ)} {m : Memory δ ρ},
    (m.putEach ls vs).locals.length = m.locals.length
  | [], _, _ => rfl
  | _ :: _, [], _ => rfl
  | l :: ls, v :: vs, m => by
    have ih := @length_putEach ls vs (m.put v l)
    exact ih.trans length_put

theorem putEach_pad : ∀ {ls : List Location} {vs : List (Value δ)} {m : Memory δ ρ},
    (∀ n, Location.ofLocal n ∈ ls → n < m.locals.length) →
    (m.pad extra).putEach ls vs = (m.putEach ls vs).pad extra
  | [], _, _, _ => rfl
  | _ :: _, [], _, _ => rfl
  | l :: ls, v :: vs, m, h => by
    have hl : ∀ n, l = .ofLocal n → n < m.locals.length := by
      rintro n rfl
      exact h n (List.mem_cons_self ..)
    have hls : ∀ n, Location.ofLocal n ∈ ls → n < (m.put v l).locals.length := by
      intro n hn
      rw [length_put]
      exact h n (List.mem_cons_of_mem l hn)
    have ih := @putEach_pad ls vs (m.put v l) hls
    show ((m.pad extra).put v l).putEach ls vs = _
    rw [put_pad hl]
    exact ih

theorem map_read_pad {ls : List Location} {vs : List (Value δ)}
    (h : ls.map m.read = vs.map some) : ls.map (m.pad extra).read = vs.map some := by
  rw [← h]
  refine List.map_congr_left ?_
  intro l hl
  have hread : m.read l ∈ vs.map some := h ▸ List.mem_map_of_mem hl
  obtain ⟨v, -, hv⟩ := List.mem_map.mp hread
  rw [← hv, read_pad hv.symm]

/-- A local behind those of the memory is written without them. -/
theorem put_pad_scratch {index : Nat} (h : m.locals.length ≤ index) :
    (m.pad extra).put v (.ofLocal index) = m.pad (extra.set (index - m.locals.length) v) := by
  show ({ m with locals := (m.locals ++ extra).set index v } : Memory δ ρ) = _
  rw [List.set_append_right index v h]
  rfl

theorem exists_read_pad {index : Nat} (h : index < m.locals.length + extra.length) :
    ∃ old, (m.pad extra).read (.ofLocal index) = some old := by
  have hlt : index < (m.locals ++ extra).length := by rw [List.length_append]; exact h
  exact ⟨(m.locals ++ extra)[index], List.getElem?_eq_getElem hlt⟩

theorem read_pad_scratch {index : Nat} (h : m.locals.length ≤ index)
    (hlt : index < m.locals.length + extra.length) :
    (m.pad (extra.set (index - m.locals.length) v)).read (.ofLocal index) = some v := by
  show (m.locals ++ extra.set (index - m.locals.length) v)[index]? = some v
  rw [List.getElem?_append_right h, List.getElem?_set_self (by omega)]

end Memory

/-! ## Instructions with more locals -/

variable {w : World δ ρ} {refs later : ReferenceTable} {returnType : TypeSig} {i : Instruction}
  {stack stack' : List (Value δ)} {m m' : Memory δ ρ}

theorem Does.length_locals (h : Does w refs returnType i stack m stack' m') :
    m'.locals.length = m.locals.length := by
  cases h with
  | store => exact Memory.length_put
  | storeField => exact Memory.length_put
  | set => exact Memory.length_put
  | update => exact Memory.length_put
  | perform _ _ _ _ _ _ _ hm' _ => rw [hm']; exact Memory.length_putEach
  | _ => rfl

/-- What an instruction does it does with more locals and more references. -/
theorem Does.pad (hgrows : refs.GrowsTo later) (extra : List (Value δ))
    (h : Does w refs returnType i stack m stack' m') :
    Does w later returnType i stack (m.pad extra) stack' (m'.pad extra) := by
  cases h with
  | literal hop hoperand => exact .literal hop hoperand
  | copy hop => exact .copy hop
  | load hl hread => exact .load hl (Memory.read_pad hread)
  | store hl hread =>
    rw [← Memory.put_pad (Memory.lt_of_read hread)]
    exact .store hl (Memory.read_pad hread)
  | address hl hread => exact .address hl (Memory.read_pad hread)
  | loadField hop hoperand hfield hread =>
    exact .loadField hop hoperand (hgrows.field_eq_ok hfield) (Memory.read_pad hread)
  | storeField hop hoperand hfield hread =>
    exact .storeField hop hoperand (hgrows.field_eq_ok hfield) (Memory.read_pad hread)
  | addressField hop hoperand hfield hread =>
    exact .addressField hop hoperand (hgrows.field_eq_ok hfield) (Memory.read_pad hread)
  | get hcall hmethod haccess hread =>
    exact .get hcall (hgrows.calledMethod_eq_ok hmethod) haccess (Memory.read_pad hread)
  | set hcall hmethod haccess hread =>
    exact .set hcall (hgrows.calledMethod_eq_ok hmethod) haccess (Memory.read_pad hread)
  | update hcall hmethod htakes hread hupdate =>
    rw [← Memory.put_pad (Memory.lt_of_read hread)]
    exact .update hcall (hgrows.calledMethod_eq_ok hmethod) htakes (Memory.read_pad hread) hupdate
  | @perform meaning args contents results contents' rest _ _ heap hforeign hmethod hvalue heffect
      hmeaning hread hperform hm' hread' =>
    -- What the instruction sees of the call is there without the locals behind.
    have hplaces : ∀ n, Location.ofLocal n ∈ framePlaces args → n < m.locals.length := by
      intro n hn
      have hsome : m.read (.ofLocal n) ∈ contents.map some := hread ▸ List.mem_map_of_mem hn
      obtain ⟨v, -, hv⟩ := List.mem_map.mp hsome
      exact (List.getElem?_eq_some_iff.mp hv.symm).1
    refine .perform hforeign ?_ hvalue (hgrows.stackEffect_eq_ok heffect)
      (hgrows.meaning?_eq_some hmeaning) (Memory.map_read_pad hread) hperform ?_
      (Memory.map_read_pad hread')
    · -- The method was known before the references were added.
      intro hcall method hlater
      obtain ⟨method', hmethod', -⟩ := Instruction.calledMethod_of_stackEffect hcall heffect
      have heq := hgrows.calledMethod_eq_ok hmethod'
      rw [hlater] at heq
      cases heq
      exact hmethod hcall method hmethod'
    · rw [hm', Memory.putEach_pad hplaces]
      rfl

end Execution

end CilWeave
