import CilWeave.Proofs.Execution.Insertion
import CilWeave.Proofs.Pass.FieldAccess.Routes
import CilWeave.Proofs.Pass.Patched

/-
Routing field access does not change what a method does.

The rewritten body is `Rerouted` from the original (`rerouted`): besides the routes of the
instructions, the ways out of protected regions are the same, since the instructions
there were keep their order. So every call of the method that ends, ends with the same
result and the same heap after the method was edited (`preserves_runs`).
-/

namespace CilWeave

open Execution (Heap Memory Rerouted Runs TakesAddress Value World)

namespace FieldRouting

variable {δ ρ : Type}

/-- A body whose field access was routed does what it did, by other routes. -/
theorem rerouted {r : FieldRouting} {w : World δ ρ} {d d' swept : Draft Unit}
    {offers : List Offer} {expanded : MethodBody} {visits : List (Visit Unit)}
    (h : RewriteRule.Rewriting r.rule d d' offers expanded visits swept)
    (hw : r.AccessedBy w d'.references) (hfits : d'.references.FitsTokens) :
    Rerouted w d.body d'.body d.references d'.references (Wrapped visits.reverse) := by
  obtain ⟨hmap, -, hvalid⟩ := MethodBody.expand_eq_ok h.expand
  obtain ⟨hreferences, hlocals⟩ := extends_swept h
  have contained : ∀ {x : InstrId}, expanded.code.contains x = true → x ∈ d.body.code.ids := by
    intro x hx
    rw [← hmap.ids]
    exact InstructionList.mem_ids.mpr hx
  have hboundaries : ∀ handler ∈ d.body.handlers, ∀ x ∈ handler.boundaries,
      x ∈ d.body.code.ids := fun handler hmem x hx =>
    contained (hvalid.boundaries handler (hmap.handlers ▸ hmem) x hx)
  -- Every instruction was visited, and refers to what the visited one refers to.
  have visited : ∀ {id : InstrId} {i : Instruction}, d.body.fetch? id = some i →
      ∃ v ∈ visits, v.site = id ∧ i = v.instruction.said ∧ i.targets = v.instruction.targets := by
    intro id i hi
    obtain ⟨j, hj, -⟩ := Option.map_eq_some_iff.mp hi
    obtain ⟨pre, v, post, hsplit, rfl⟩ := h.exists_split (InstructionList.mem_ids_of_get? hj)
    have hv : v ∈ visits := RewriteRule.Rewriting.mem_of_split hsplit
    rw [h.fetch?_original hv] at hi
    cases hi
    exact ⟨v, hv, rfl, rfl, h.said_targets hv⟩
  refine ⟨hreferences, hlocals, h.first?_eq, fun id => h.not_wrapped_first, ?_, ?_, ?_, ?_⟩
  · intro id i hi t ht
    obtain ⟨v, hv, -, -, htargets⟩ := visited hi
    exact not_wrapped_of_referenced h (.inl ⟨v, hv, htargets ▸ ht⟩)
  · intro handler hmem
    have hstart : handler.handlerStart ∈ handler.boundaries :=
      List.mem_filterMap.mpr ⟨_, by simp, rfl⟩
    exact not_wrapped_of_referenced h (.inr ⟨handler, hmem, hstart⟩)
  · intro id i hi t ht
    obtain ⟨v, hv, rfl, -, htargets⟩ := visited hi
    have hget := h.get?_expanded hv
    exact MethodBody.finallyBetween_eq h.sublist_ids h.handlers_eq hboundaries
      (contained (InstructionList.contains_of_get? hget))
      (contained (hvalid.targets v.site v.instruction hget t (htargets ▸ ht)))
  · intro id i hi hnot
    obtain ⟨v, hv, rfl, rfl, -⟩ := visited hi
    obtain ⟨pre, post, hsplit⟩ := List.append_of_mem (List.mem_reverse.mpr hv)
    exact route h hw hfits hsplit hnot

/-- A call of a rewritten body ends as it did. -/
theorem runs_of_rewrite {r : FieldRouting} {w : World δ ρ} {returnType : TypeSig}
    {d d' : Draft Unit} {offers : List Offer} (h : r.rule.rewrite returnType d = .ok offers d')
    (hw : r.AccessedBy w d'.references) (hfits : d'.references.FitsTokens)
    {arguments returned : List (Value δ)} {heap : Heap δ ρ}
    {final : Memory δ ρ}
    (hruns : Runs w d.body d.references returnType arguments heap returned final) :
    ∃ extra, Runs w d'.body d'.references returnType arguments heap returned
      (final.pad extra) := by
  obtain ⟨expanded, visits, swept, hrewriting⟩ := RewriteRule.rewriting_of_ok h
  exact (rerouted hrewriting hw hfits).runs hruns

/-- Routing the field access of a method does not change what the method does: a call that
can run to its end can do so afterwards with the same result, the same arguments and the
same heap, and there are only more locals. The fields are taken to be fields of objects, which
their accessors access by name, and the references to be no more than tokens can tell apart. -/
theorem preserves_runs (r : FieldRouting) (w : World δ ρ) (m m' : Module) (t : Token)
    (method : MethodDef) (body : MethodBody) (offers : List Offer)
    (hmethod : m.methodDef? t = some method) (hbody : method.body = some body)
    (h : Module.editMethod t method [] r.rule.rewrite m = .ok offers m')
    (hw : r.AccessedBy w m'.references) (hfits : m'.references.FitsTokens) :
    ∃ body', m'.methodDef? t = some { method with body := some body' } ∧
      ∀ (arguments returned : List (Value δ)) (heap : Heap δ ρ) (final : Memory δ ρ),
        Runs w body m.references method.signature.returnType arguments heap returned final →
        ∃ extra, Runs w body' m'.references method.signature.returnType arguments heap returned
          { final with locals := final.locals ++ extra } := by
  unfold Module.editMethod at h
  rw [hbody] at h
  simp only at h
  split at h
  · rename_i _ d hrewrite
    cases h
    refine ⟨d.body, Module.methodDef?_commit hmethod, ?_⟩
    intro arguments returned heap final hruns
    exact runs_of_rewrite hrewrite hw hfits hruns
  · cases h

def score : FieldRef := ⟨.ofClass "SaveData", "score", .int32⟩

/-- A method that adds one to the number whose address it takes. -/
def bump : MethodRef := .plain (.ofClass "Counter") "Bump" (.forStatic .void [.byRef .int32])

/-- The routing of the score through generic accessors. -/
def scoreRouting : FieldRouting where
  trackedType := "SaveData"
  fields := ["score"]
  accessors := ⟨[], [],
    .plain (.ofClass "Access") "Get" ⟨false, .mvar 0, [.object, .string], 1⟩,
    .plain (.ofClass "Access") "Set" ⟨false, .void, [.object, .string, .mvar 0], 1⟩⟩

/-- `Bump(ref data.score); return data.score;` -/
def bumping : MethodBody :=
  { MethodBody.empty with
    code := (InstructionList.ofList [.ldarg 0, .of .ldflda (.token ⟨0x0A000001⟩),
      .call ⟨0x0A000002⟩, .ldarg 0, .of .ldfld (.token ⟨0x0A000001⟩),
      .plain .ret]).toOption.getD .empty }

def bumpingMethod : MethodDef :=
  ⟨⟨0x06000001⟩, ⟨0x02000001⟩, "Earn", ⟨0x10⟩, .forStatic .int32 [.ofClass "SaveData"],
    some bumping⟩

def scoreModule : Module where
  name := "Game"
  types := #[]
  fields := #[]
  methods := #[bumpingMethod]
  references := ⟨#[.field score, .method bump], by decide⟩

/-- A world of numbers, in which the accessors and `bump` do what they are for. -/
def scoreWorld : World Nat Unit where
  access? method :=
    if method = (scoreRouting.accessors.getter .int32).2 then some .read
    else if method = (scoreRouting.accessors.setter .int32).2 then some .write
    else none
  access_effect method access h := by
    split at h
    · rename_i heq
      cases h
      rw [heq]
      rfl
    · split at h
      · rename_i heq
        cases h
        rw [heq]
        rfl
      · cases h
  updates _ _ old v := ∃ n, old = .datum n ∧ v = .datum (n + 1)
  performs _ _ _ _ _ _ _ _ := False
  decides _ _ _ := False
  initial _ := .null

def scoreHeap (n : Nat) : Heap Nat Unit where
  field? object name := if object = 0 ∧ name = "score" then some (.datum n) else none
  rest := ()

theorem runs_bumping (n : Nat) :
    Runs scoreWorld bumping scoreModule.references .int32 [.object 0] (scoreHeap n)
      [.datum (n + 1)] ⟨[.object 0], [], (scoreHeap n).setField 0 "score" (.datum (n + 1))⟩ := by
  let m : Memory Nat Unit := ⟨[.object 0], [], scoreHeap n⟩
  let m' : Memory Nat Unit := m.put (.datum (n + 1)) (.ofField 0 "score")
  have htakes : TakesAddress bump := ⟨rfl, rfl, .byRef .int32, rfl, rfl⟩
  refine ⟨⟨⟨0⟩, [], m, []⟩, ⟨⟨5⟩, [.datum (n + 1)], m', []⟩, ⟨⟨0⟩, rfl, rfl⟩, ?_,
    ⟨.plain .ret, [], rfl, rfl, rfl, rfl⟩, rfl⟩
  refine .head (.next (i := .ldarg 0) rfl (.load (l := .ofArgument 0) rfl rfl) rfl) ?_
  refine .head (.next (i := .of .ldflda (.token ⟨0x0A000001⟩)) rfl
    (.addressField (t := ⟨0x0A000001⟩) rfl rfl rfl rfl) rfl) ?_
  refine .head (.next (i := .call ⟨0x0A000002⟩) rfl
    (.update (v := .datum (n + 1)) rfl rfl htakes rfl ⟨n, rfl, rfl⟩) rfl) ?_
  refine .head (.next (i := .ldarg 0) rfl (.load (l := .ofArgument 0) rfl rfl) rfl) ?_
  exact .head (.next (i := .of .ldfld (.token ⟨0x0A000001⟩)) rfl
    (.loadField (t := ⟨0x0A000001⟩) rfl rfl rfl rfl) rfl) (.refl _)

theorem editMethod_bumping :
    ∃ offers m', Module.editMethod ⟨0x06000001⟩ bumpingMethod [] scoreRouting.rule.rewrite
        scoreModule = .ok offers m' ∧
      m'.references.toList = [.field score, .method bump,
        .method (scoreRouting.accessors.getter .int32).2,
        .method (scoreRouting.accessors.setter .int32).2] := by
  have hok : (EStateM.run' (Module.editMethod ⟨0x06000001⟩ bumpingMethod []
      scoreRouting.rule.rewrite) scoreModule).isSome = true := by decide +kernel
  obtain ⟨offers, hedit⟩ := Edit.eq_ok_of_isSome hok
  exact ⟨offers, _, hedit, by decide +kernel⟩

theorem preserves_runs_bumping : ∃ offers m' body' extra,
    Module.editMethod ⟨0x06000001⟩ bumpingMethod [] scoreRouting.rule.rewrite scoreModule =
        .ok offers m' ∧
      m'.methodDef? ⟨0x06000001⟩ = some { bumpingMethod with body := some body' } ∧
      Runs scoreWorld body' m'.references .int32 [.object 0] (scoreHeap 10) [.datum 11]
        ⟨[.object 0], extra, (scoreHeap 10).setField 0 "score" (.datum 11)⟩ := by
  obtain ⟨offers, m', hedit, hreferences⟩ := editMethod_bumping
  have haccessed : scoreRouting.AccessedBy scoreWorld m'.references := by
    intro field hmem _
    rw [hreferences] at hmem
    have hfield : field = score := by simpa using hmem
    subst hfield
    exact ⟨fun _ _ _ _ _ _ _ _ => id, by decide +kernel, by decide +kernel⟩
  have hfits : m'.references.FitsTokens := by
    have hsize := congrArg List.length hreferences
    unfold ReferenceTable.FitsTokens ReferenceTable.size
    unfold ReferenceTable.toList at hsize
    rw [Array.length_toList] at hsize
    rw [hsize]
    decide
  obtain ⟨body', hbody', hruns⟩ := preserves_runs scoreRouting scoreWorld scoreModule m'
    ⟨0x06000001⟩ bumpingMethod bumping offers rfl rfl hedit haccessed hfits
  obtain ⟨extra, hrun⟩ := hruns [.object 0] [.datum 11] (scoreHeap 10) _ (runs_bumping 10)
  exact ⟨offers, m', body', extra, hedit, hbody', hrun⟩

end FieldRouting

end CilWeave
