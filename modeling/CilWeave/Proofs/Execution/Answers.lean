import CilWeave.Proofs.Execution.Straight

/-
Instructions that answer something and do nothing else.

What the machine leaves to its world can be anything. `World.Answers` says of an instruction that
the world answers some values for those it pops, and leaves the places they point to and the heap as
they are. Then the instruction has one outcome, in which the memory is as it was
(`World.Answers.does_iff`).
-/

namespace CilWeave.Execution

variable {δ ρ : Type} {w : World δ ρ} {refs : ReferenceTable} {returnType : TypeSig}
  {m m' : Memory δ ρ}

/-! ## Places that are written with what they hold -/

namespace Memory

theorem put_self {l : Location} {v : Value δ} (h : m.read l = some v) : m.put v l = m := by
  cases l with
  | ofArgument n =>
    obtain ⟨hlt, rfl⟩ := List.getElem?_eq_some_iff.mp h
    show ({ m with arguments := m.arguments.set n m.arguments[n] } : Memory δ ρ) = m
    rw [List.set_getElem_self]
  | ofLocal n =>
    obtain ⟨hlt, rfl⟩ := List.getElem?_eq_some_iff.mp h
    show ({ m with locals := m.locals.set n m.locals[n] } : Memory δ ρ) = m
    rw [List.set_getElem_self]
  | ofField object name =>
    have hfield : (fun o n => if o = object ∧ n = name then some v else m.heap.field? o n) =
        m.heap.field? := by
      funext o n
      split
      · rename_i heq
        rw [heq.1, heq.2]
        exact h.symm
      · rfl
    show ({ m with heap := { m.heap with field? := _ } } : Memory δ ρ) = m
    rw [hfield]

theorem putEach_self : ∀ {places : List Location} {contents : List (Value δ)},
    places.map m.read = contents.map some → m.putEach places contents = m
  | [], _, _ => rfl
  | _ :: _, [], _ => rfl
  | l :: places, v :: contents, h => by
    obtain ⟨hread, hrest⟩ := List.cons.inj h
    show (m.put v l).putEach places contents = m
    rw [put_self hread]
    exact putEach_self hrest

/-- What some values point to in the call is there. -/
def Holds (m : Memory δ ρ) (values : List (Value δ)) : Prop :=
  ∀ l ∈ framePlaces values, ∃ v, m.read l = some v

theorem Holds.exists_contents {values : List (Value δ)} (h : m.Holds values) :
    ∃ contents : List (Value δ), (framePlaces values).map m.read = contents.map some := by
  unfold Holds at h
  generalize framePlaces values = places at h
  induction places with
  | nil => exact ⟨[], rfl⟩
  | cons l places ih =>
    obtain ⟨v, hv⟩ := h l List.mem_cons_self
    obtain ⟨contents, hcontents⟩ := ih fun x hx => h x (List.mem_cons_of_mem l hx)
    exact ⟨v :: contents, by rw [List.map_cons, List.map_cons, hv, hcontents]⟩

end Memory

/-! ## Answers -/

/-- The world has one answer to the values that an instruction pops, and changes nothing. -/
def World.Answers (w : World δ ρ) (op : OpCode) (meaning : Meaning)
    (args results : List (Value δ)) : Prop :=
  ∀ contents heap results' contents' heap',
    w.performs op meaning args contents heap results' contents' heap' ↔
      results' = results ∧ contents' = contents ∧ heap' = heap

/-- The world runs the instruction itself, and not as an access by name or through an address. -/
structure IsForeign (w : World δ ρ) (refs : ReferenceTable) (i : Instruction) : Prop where
  op : i.op.isForeign = true
  field : i.op.accessesField = false
  called : i.op.isCall = true → ∀ method, i.calledMethod refs = .ok method →
    w.access? method = none ∧ ¬ TakesAddress method

/-- What an instruction does that the world runs. -/
theorem IsForeign.does {i : Instruction} {stack stack' : List (Value δ)}
    (hforeign : IsForeign w refs i) (h : Does w refs returnType i stack m stack' m') :
    ∃ meaning args contents results contents' rest heap,
      stack = args ++ rest ∧ stack' = results ++ rest ∧
      i.stackEffect refs returnType = .ok (args.length, results.length) ∧
      meaning? refs i.operand = some meaning ∧
      (framePlaces args).map m.read = contents.map some ∧
      w.performs i.op meaning args contents m.heap results contents' heap ∧
      m' = { m.putEach (framePlaces args) contents' with heap } := by
  obtain ⟨hop, hfield, hcalled⟩ := hforeign
  cases h with
  | literal heq | copy heq =>
    rw [heq] at hop
    cases hop
  | loadField heq | storeField heq | addressField heq =>
    rw [heq] at hfield
    cases hfield
  | load hl => rcases Instruction.op_of_loads? hl with heq | heq <;> rw [heq] at hop <;> cases hop
  | store hl => rcases Instruction.op_of_stores? hl with heq | heq <;> rw [heq] at hop <;> cases hop
  | address hl =>
    rcases Instruction.op_of_addresses? hl with heq | heq <;> rw [heq] at hop <;> cases hop
  | get hcall hmethod haccess | set hcall hmethod haccess =>
    rw [(hcalled hcall _ hmethod).1] at haccess
    cases haccess
  | update hcall hmethod htakes => exact absurd htakes (hcalled hcall _ hmethod).2
  | perform _ _ _ heffect hmeaning hcontents hperforms hm' =>
    exact ⟨_, _, _, _, _, _, _, rfl, rfl, heffect, hmeaning, hcontents, hperforms, hm'⟩

/-- An instruction that is answered pushes the answer, and that is all. -/
theorem World.Answers.does_iff {i : Instruction} {meaning : Meaning}
    {args results stack stack' : List (Value δ)} (h : w.Answers i.op meaning args results)
    (hforeign : IsForeign w refs i)
    (heffect : i.stackEffect refs returnType = .ok (args.length, results.length))
    (hmeaning : meaning? refs i.operand = some meaning) (hholds : m.Holds args) :
    Does w refs returnType i (args ++ stack) m stack' m' ↔ stack' = results ++ stack ∧ m' = m := by
  constructor
  · intro hdoes
    obtain ⟨meaning', args', contents, results', contents', rest, heap, hstack, rfl, heffect',
      hmeaning', hcontents, hperforms, rfl⟩ := hforeign.does hdoes
    rw [hmeaning] at hmeaning'
    rw [heffect] at heffect'
    cases hmeaning'
    obtain ⟨rfl, rfl⟩ := List.append_inj hstack (Prod.mk.inj (Except.ok.inj heffect')).1
    obtain ⟨rfl, rfl, rfl⟩ := (h _ _ _ _ _).mp hperforms
    rw [Memory.putEach_self hcontents]
    exact ⟨rfl, rfl⟩
  · rintro ⟨rfl, rfl⟩
    obtain ⟨contents, hcontents⟩ := hholds.exists_contents
    refine .perform hforeign.op (fun hcall method hmethod => ?_)
      (fun hfield => absurd (hforeign.field.symm.trans hfield) nofun) heffect hmeaning hcontents
      ((h _ _ _ _ _).mpr ⟨rfl, rfl, rfl⟩) ?_ hcontents
    · obtain ⟨haccess, htakes⟩ := hforeign.called hcall method hmethod
      exact ⟨haccess, fun haddress => absurd haddress htakes⟩
    · rw [Memory.putEach_self hcontents]

end CilWeave.Execution
