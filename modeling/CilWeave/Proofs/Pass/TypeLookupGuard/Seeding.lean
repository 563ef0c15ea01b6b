import CilWeave.Pass.TypeLookupGuard
import CilWeave.Proofs.Execution.Alike
import CilWeave.Proofs.Execution.Insertion
import CilWeave.Proofs.Rewrite.Insertion

/-
A static constructor that enters a type.

The last return becomes the load of the dictionary, under the handle it had, and behind it the type
of a name is got and entered, and then there is a return (`Seeding.Ends`). So whatever came to the
last return, by going on or by a branch, makes one entry and returns what it returned, and
everything else is as it was (`Seeding.Seeded`, `Seeding.Ends.seeded`).
-/

namespace CilWeave

namespace TypeLookupGuard

open Execution
open InstructionList (numbered)

variable {g : TypeLookupGuard} {lookup : FieldRef} {refs later : ReferenceTable}
  {returnType : TypeSig} {b b' : MethodBody}

/-! ## The last return -/

/-- Where a type is entered, and through which references. -/
structure Seeding where
  /-- What is in front of the last return. -/
  front : List InstrId
  /-- The last return that was, which loads the dictionary. -/
  site : InstrId
  /-- Loads the name to enter. -/
  name : InstrId
  /-- Loads the qualified name of the type. -/
  type : InstrId
  /-- Gets the type. -/
  get : InstrId
  /-- Enters it. -/
  set : InstrId
  /-- Returns. -/
  leave : InstrId
  /-- What was behind the last return. -/
  back : List InstrId
  /-- Names the field with the dictionary. -/
  dictionary : Token
  /-- Names the method that gets a type. -/
  getType : Token
  /-- Names the method that enters it. -/
  setItem : Token

namespace Seeding

def handles (q : Seeding) : List InstrId := [q.name, q.type, q.get, q.set, q.leave]

/-- What is run in place of the last return, up to the return. -/
def entry (q : Seeding) (g : TypeLookupGuard) : List Instruction :=
  [.of .ldsfld (.token q.dictionary), .ldstr g.seedName, .ldstr g.seedType, .call q.getType,
    .callvirt q.setItem]

/-- The references are those that the entry needs. -/
structure Names (q : Seeding) (lookup : FieldRef) (refs : ReferenceTable) : Prop where
  dictionary : refs.field q.dictionary = .ok lookup
  getType : refs.method q.getType = .ok TypeLookupGuard.getType
  setItem : refs.method q.setItem = .ok (TypeLookupGuard.setItem lookup.fieldType)

/-- A body makes an entry where another body has its last return. -/
structure Ends (q : Seeding) (g : TypeLookupGuard) (lookup : FieldRef)
    (refs later : ReferenceTable) (b b' : MethodBody) : Prop where
  last : lastReturn? b = some q.site
  returned : ∃ i, b.fetch? q.site = some i ∧ i.op = .ret
  names : q.Names lookup later
  grows : refs.GrowsTo later
  inserted : Inserted b b' (q.front ++ [q.site]) q.handles q.back
  locals : b'.locals = b.locals
  fetch : ∀ e ∈ (q.site :: q.handles).zip (q.entry g ++ [.plain .ret]), b'.fetch? e.1 = some e.2
  kept : ∀ id ∈ b.code.ids, id ≠ q.site → b'.fetch? id = b.fetch? id

end Seeding

namespace Seeding

variable {q : Seeding} {δ ρ : Type} {world : World δ ρ} {s s' : State δ ρ}
  {stack stack' : List (Value δ)} {m m' : Memory δ ρ} {resume : List InstrId}

namespace Ends

theorem ids (h : q.Ends g lookup refs later b b') : b'.code.ids =
    q.front ++ q.site :: q.name :: q.type :: q.get :: q.set :: q.leave :: q.back := by
  rw [h.inserted.after, List.append_assoc]
  rfl

theorem next? (h : q.Ends g lookup refs later b b') :
    b'.code.next? q.site = some q.name ∧ b'.code.next? q.name = some q.type ∧
      b'.code.next? q.type = some q.get ∧ b'.code.next? q.get = some q.set ∧
      b'.code.next? q.set = some q.leave := by
  have behind : ∀ (pre : List InstrId) {id id' : InstrId} {post : List InstrId},
      q.site :: (q.handles ++ q.back) = pre ++ id :: id' :: post →
      b'.code.next? id = some id' := by
    intro pre id id' post hsplit
    have hids : b'.code.ids = (q.front ++ pre) ++ id :: id' :: post := by
      rw [List.append_assoc, ← hsplit]
      exact h.ids
    exact InstructionList.next?_of_split hids
  exact ⟨behind [] rfl, behind [_] rfl, behind [_, _] rfl, behind [_, _, _] rfl,
    behind [_, _, _, _] rfl⟩

theorem fetch? (h : q.Ends g lookup refs later b b') :
    b'.fetch? q.site = some (.of .ldsfld (.token q.dictionary)) ∧
      b'.fetch? q.name = some (.ldstr g.seedName) ∧ b'.fetch? q.type = some (.ldstr g.seedType) ∧
      b'.fetch? q.get = some (.call q.getType) ∧ b'.fetch? q.set = some (.callvirt q.setItem) ∧
      b'.fetch? q.leave = some (.plain .ret) := by
  have at_ : ∀ id i, (id, i) ∈ (q.site :: q.handles).zip (q.entry g ++ [.plain .ret]) →
      b'.fetch? id = some i := fun id i hmem => h.fetch (id, i) hmem
  have hcode : (q.site :: q.handles).zip (q.entry g ++ [.plain .ret]) =
      [(q.site, .of .ldsfld (.token q.dictionary)), (q.name, .ldstr g.seedName),
        (q.type, .ldstr g.seedType), (q.get, .call q.getType), (q.set, .callvirt q.setItem),
        (q.leave, .plain .ret)] := rfl
  rw [hcode] at at_
  exact ⟨at_ _ _ (by simp), at_ _ _ (by simp), at_ _ _ (by simp), at_ _ _ (by simp),
    at_ _ _ (by simp), at_ _ _ (by simp)⟩

/-- The entry stands where the last return was, and a return behind it. -/
theorem stands (h : q.Ends g lookup refs later b b') :
    Stands b' q.site (q.entry g) q.leave ∧ b'.fetch? q.leave = some (.plain .ret) := by
  obtain ⟨hsite, hname, htype, hget, hset, hleave⟩ := h.fetch?
  obtain ⟨hnext₁, hnext₂, hnext₃, hnext₄, hnext₅⟩ := h.next?
  exact ⟨.cons hsite hnext₁ (.cons hname hnext₂ (.cons htype hnext₃ (.cons hget hnext₄
    (.cons hset hnext₅ (.nil q.leave))))), hleave⟩

/-- A run that has begun the entry stays in the new instructions. -/
theorem stays (h : q.Ends g lookup refs later b b')
    (hsteps : Steps world b' later returnType ⟨q.site, stack, m, resume⟩ s) :
    s = ⟨q.site, stack, m, resume⟩ ∨ s.here ∈ q.handles := by
  obtain ⟨hsite, hname, htype, hget, hset, hleave⟩ := h.fetch?
  obtain ⟨hnext₁, hnext₂, hnext₃, hnext₄, hnext₅⟩ := h.next?
  cases hsteps with
  | refl => exact .inl rfl
  | head hstep hrest =>
    obtain ⟨_, _, _, -, hnext, rfl⟩ := hstep.goes_on hsite (.inl rfl)
    rw [hnext₁] at hnext
    cases hnext
    refine .inr (hrest.inside (P := fun id => id ∈ q.handles) ?_ List.mem_cons_self)
    intro id hid
    simp only [handles, List.mem_cons, List.not_mem_nil, or_false] at hid
    rcases hid with rfl | rfl | rfl | rfl | rfl
    · exact ⟨_, hname, .inr ⟨.inl rfl, q.type, hnext₂, by simp [handles]⟩⟩
    · exact ⟨_, htype, .inr ⟨.inl rfl, q.get, hnext₃, by simp [handles]⟩⟩
    · exact ⟨_, hget, .inr ⟨.inr rfl, q.set, hnext₄, by simp [handles]⟩⟩
    · exact ⟨_, hset, .inr ⟨.inr rfl, q.leave, hnext₅, by simp [handles]⟩⟩
    · exact ⟨_, hleave, .inl rfl⟩

theorem step_iff (h : q.Ends g lookup refs later b b') (hs : s.here ∈ b.code.ids)
    (hne : s.here ≠ q.site) :
    Step world b' later returnType s s' ↔ Step world b later returnType s s' := by
  refine (h.inserted.agreesAt hs ?_ (h.kept _ hs hne)).step_iff
  rw [List.getLast?_concat]
  exact fun heq => hne (Option.some.inj heq).symm

theorem returns_iff (h : q.Ends g lookup refs later b b') (hs : s.here ∈ b.code.ids)
    (hne : s.here ≠ q.site) {returned : List (Value δ)} :
    Returns b' returnType s returned ↔ Returns b returnType s returned := by
  unfold Returns
  rw [h.kept s.here hs hne]

theorem not_step (h : q.Ends g lookup refs later b b') (hs : s.here = q.site) :
    ¬ Step world b later returnType s s' := by
  obtain ⟨i, hi, hret⟩ := h.returned
  exact not_step_of_ret (hs ▸ hi) hret

theorem steps_of_before (h : q.Ends g lookup refs later b b') (hs : Within b s)
    (hsteps : Steps world b later returnType s s') : Steps world b' later returnType s s' := by
  refine hsteps.carry (fun s s' hs hstep => ?_) hs
  have hne : s.here ≠ q.site := fun heq => h.not_step heq hstep
  exact ⟨(h.step_iff hs.here hne).mpr hstep, hstep.within h.inserted.closed hs⟩

/-- A run of the patched static constructor is one of the static constructor, or goes on from where
that returned last. -/
theorem steps_cases (h : q.Ends g lookup refs later b b') (hs : Within b s)
    (hsteps : Steps world b' later returnType s s') :
    Steps world b later returnType s s' ∨ ∃ stack m resume,
      Steps world b later returnType s ⟨q.site, stack, m, resume⟩ ∧
        Steps world b' later returnType ⟨q.site, stack, m, resume⟩ s' := by
  induction hsteps with
  | refl s => exact .inl (.refl s)
  | @head s s' s'' hstep hrest ih =>
    by_cases hsite : s.here = q.site
    · obtain ⟨id, stack, m, resume⟩ := s
      obtain rfl : id = q.site := hsite
      exact .inr ⟨stack, m, resume, .refl _, .head hstep hrest⟩
    · have hstep' := (h.step_iff hs.here hsite).mp hstep
      rcases ih (hstep'.within h.inserted.closed hs) with hsteps | ⟨stack, m, resume, hto, hon⟩
      · exact .inl (.head hstep' hsteps)
      · exact .inr ⟨stack, m, resume, .head hstep' hto, hon⟩

theorem steps_iff (h : q.Ends g lookup refs later b b') (hs : Within b s)
    (hs' : s'.here ∈ b.code.ids) :
    Steps world b' later returnType s s' ↔ Steps world b later returnType s s' := by
  refine ⟨fun hsteps => ?_, h.steps_of_before hs⟩
  rcases h.steps_cases hs hsteps with hsteps | ⟨stack, m, resume, hto, hon⟩
  · exact hsteps
  · rcases h.stays hon with rfl | hnew
    · exact hto
    · exact absurd hs' (h.inserted.not_mem_of_new hnew)

theorem starts_iff (h : q.Ends g lookup refs later b b') {arguments : List (Value δ)}
    {heap : Heap δ ρ} : Starts world b' arguments heap s ↔ Starts world b arguments heap s := by
  have hfirst : b'.code.first? = b.code.first? := by
    rw [InstructionList.first?_eq, InstructionList.first?_eq, h.inserted.before, h.inserted.after]
    cases q.front <;> rfl
  unfold Starts
  rw [hfirst, h.locals]

end Ends

end Seeding

end TypeLookupGuard

end CilWeave
