import CilWeave.Proofs.Module.Completeness
import CilWeave.Proofs.Pass.CallRedirection.Sweep
import CilWeave.Proofs.Run.Registry

/-
A redirection changes nothing but the calls that it redirects.

Of a built module every method with a body is looked through (`mem_candidates`). Handles, their
order, locals and handlers stay; so does the depth of the stack, as the table with the
replacement has it. What is not refused has the calls redirected, and nothing else
(`Redirecting.Redirected`); what is refused could not be compacted before either
(`Redirecting.BodyOutcome`). The methods and the counts are put together in
`Redirecting.run_exact`.
-/

namespace CilWeave

namespace CallRedirection

variable {m : Module} {t : Token} {method : MethodDef}

/-- Every method of a built module that has a body is a candidate. -/
theorem mem_candidates (hm : m.Built) (htypes : m.types.size < 0x1000000)
    (ht : m.methodDef? t = some method) (hbody : method.hasBody = true) : t ∈ candidates m := by
  refine List.mem_map.mpr ⟨method, List.mem_filter.mpr ⟨?_, hbody⟩, hm.token_eq ht⟩
  exact hm.listed.mem_allMethods htypes ht

theorem nodup_candidates (hm : m.Built) (htypes : m.types.size < 0x1000000)
    (hmethods : m.methods.size < 0x1000000) : (candidates m).Nodup :=
  (hm.linked.nodup_allMethods htypes hmethods).sublist (List.filter_sublist.map MethodDef.token)

end CallRedirection

namespace Redirecting

open MethodBody CallRedirection

variable {q : Redirecting} {m m' : Module} {t : Token} {method : MethodDef}
  {b b' s s' : MethodBody} {returnType : TypeSig} {offers : List Offer}

/-! ## One body -/

/-- The expanded body is another one with the calls redirected that can be. -/
structure Redirected (q : Redirecting) (s s' : MethodBody) : Prop where
  ids : s'.code.ids = s.code.ids
  locals : s'.locals = s.locals
  handlers : s'.handlers = s.handlers
  redirected : ∀ id i, s.code.get? id = some i → q.redirects i = true →
    ∃ i', s'.code.get? id = some i' ∧ i'.op = .call ∧ i'.operand = .token q.token
  kept : ∀ id i, s.code.get? id = some i → q.redirects i = false →
    ∃ i', s'.code.get? id = some i' ∧ i'.op = i.op ∧ i'.operand = i.operand
  remaining : ∀ i ∈ s'.code.instructions, q.pass.applies q.refs i = true →
    q.misses i = true ∨ i.op = .call ∧ i.operand = .token q.token

/-- What a redirection makes of a body, in a method with this return type. -/
structure BodyOutcome (q : Redirecting) (returnType : TypeSig) (failed : Prop)
    (b b' : MethodBody) : Prop where
  ids : b'.code.ids = b.code.ids
  locals : b'.locals = b.locals
  handlers : b'.handlers = b.handlers
  initLocals : b'.initLocals = b.initLocals
  depth : b'.computeMaxStack q.refs returnType = b.computeMaxStack q.refs returnType
  kept : failed → b' = b
  /-- Only what an expansion, the stack analysis or the layout refuses is refused. -/
  refused : failed ↔ (∀ s, expand b ≠ .ok () s) ∨ ∃ s, expand b = .ok () s ∧
    (∃ i ∈ s.code.instructions, q.redirects i = true) ∧
    (UInt32.size ≤ b.roomNeeded ∨ ∀ max, b.computeMaxStack q.refs returnType ≠ .ok max)
  redirected : ¬ failed →
    ∃ s s', expand b = .ok () s ∧ expand b' = .ok () s' ∧ q.Redirected s s'

theorem exists_redirected_of_attempt (h : q.attempt returnType b = .ok (b', offers)) :
    ∃ s s', expand b = .ok () s ∧ expand b' = .ok () s' ∧ q.Redirected s s' := by
  obtain ⟨s, s', hs, hs', hsame, hlocals, hhandlers⟩ := spelledAlike_of_attempt h
  have hmap := q.mapped_redirectAll s
  have hids : s'.code.ids = s.code.ids := hsame.ids.trans hmap.ids
  have hone : ∀ id i, s.code.get? id = some i → ∃ i', s'.code.get? id = some i' ∧
      i'.op = (q.redirected i).op ∧ i'.operand = (q.redirected i).operand := by
    intro id i hi
    obtain ⟨i', hi'⟩ := InstructionList.get?_of_mem (hids ▸ InstructionList.mem_ids_of_get? hi)
    exact ⟨i', hi', hsame.same id _ i' (hmap.get?_of hi) hi'⟩
  refine ⟨s, s', hs, hs', hids, hlocals, hhandlers, ?_, ?_, ?_⟩
  · intro id i hi hredirects
    obtain ⟨i', hi', hspelled⟩ := hone id i hi
    rw [redirected_of hredirects] at hspelled
    exact ⟨i', hi', hspelled⟩
  · intro id i hi hnot
    obtain ⟨i', hi', hspelled⟩ := hone id i hi
    rw [redirected_of_not hnot] at hspelled
    exact ⟨i', hi', hspelled⟩
  · intro i hi happlies
    refine (applies_iff.mp happlies).symm.imp_right fun hredirects => ?_
    have hfixed := redirected_of_attempt hsame hi
    rw [redirected_of hredirects] at hfixed
    rw [← hfixed]
    exact ⟨rfl, rfl⟩

theorem bodyOutcome_of_error (h : ∃ e, q.attempt returnType b = .error e) :
    q.BodyOutcome returnType True b b :=
  ⟨rfl, rfl, rfl, rfl, rfl, fun _ => rfl, iff_of_true trivial (attempt_error_iff.mp h),
    fun hnot => absurd trivial hnot⟩

theorem bodyOutcome_of_ok (h : q.attempt returnType b = .ok (b', offers)) :
    q.BodyOutcome returnType False b b' := by
  obtain ⟨hcode, hlocals, hhandlers, hinit, -⟩ := inPlace_of_attempt h
  refine ⟨hcode.ids_eq, hlocals, hhandlers, hinit, computeMaxStack_of_attempt h, False.elim,
    iff_of_false id fun hrefused => ?_, fun _ => exists_redirected_of_attempt h⟩
  obtain ⟨e, he⟩ := attempt_error_iff.mpr hrefused
  rw [h] at he
  cases he

/-! ## Many methods -/

/-- How many calls of the target a method of this token has left that cannot be redirected. -/
def missesLeft (q : Redirecting) (m : Module) (t : Token) : Nat :=
  match (m.methodDef? t).bind MethodDef.body with
  | none => 0
  | some b =>
    match expand b with
    | .ok () s => s.code.instructions.countP q.misses
    | .error _ _ => 0

/-- What a redirection makes of a module. -/
structure ModuleOutcome (q : Redirecting) (m m' : Module) (failed : List Token) : Prop where
  name : m'.name = m.name
  types : m'.types = m.types
  fields : m'.fields = m.fields
  references : m'.references = q.refs
  size : m'.methods.size = m.methods.size
  different : failed.Nodup
  bodies : ∀ t ∈ failed, ((m.methodDef? t).bind MethodDef.body).isSome = true
  bodiless : ∀ t method, m.methodDef? t = some method → method.body = none →
    m'.methodDef? t = some method
  outcome : ∀ t method b, m.methodDef? t = some method → method.body = some b →
    ∃ b', m'.methodDef? t = some { method with body := some b' } ∧
      q.BodyOutcome method.signature.returnType (t ∈ failed) b b'

theorem missesLeft_outcome (hkept : q.refuses method = false)
    (ht : m'.methodDef? t = some (q.outcome method)) : q.missesLeft m' t = q.missed method := by
  simp only [missesLeft, ht, Option.bind_some]
  cases hbody : method.body with
  | none => simp only [outcome_of_none hbody, missed, hbody]
  | some b =>
    cases hattempt : q.attempt method.signature.returnType b with
    | error e => simp only [refuses, hbody, hattempt, Bool.true_eq_false] at hkept
    | ok result =>
      obtain ⟨b', offers⟩ := result
      obtain ⟨s, s', hs, hs', hsame, -⟩ := spelledAlike_of_attempt hattempt
      obtain ⟨s₁, hs₁, rfl, -⟩ := attempt_eq_ok hattempt
      cases hs.symm.trans hs₁
      simp only [outcome_of_ok hbody hattempt, missed, hbody, hattempt, hs',
        missedCount_offered, misses_of_attempt hsame]

theorem missed_of_refuses (h : q.refuses method = true) : q.missed method = 0 := by
  cases hbody : method.body with
  | none => simp only [missed, hbody]
  | some b =>
    cases hattempt : q.attempt method.signature.returnType b with
    | error e => simp only [missed, hbody, hattempt]
    | ok result => simp only [refuses, hbody, hattempt, Bool.false_eq_true] at h

theorem sum_missesLeft {methods : List Token} (h : Advanced q m m' methods) :
    (methods.map (q.missedAt m)).sum =
      ((methods.filter fun t => !q.refusesAt m t).map (q.missesLeft m')).sum := by
  have hnone : ∀ t ∈ methods, (!q.refusesAt m t) = false → q.missedAt m t = 0 := by
    intro t _ hrefuses
    simp only [Bool.not_eq_false', refusesAt] at hrefuses
    obtain ⟨method, hold, hrefuses⟩ := (Option.any_eq_true _ _).mp hrefuses
    simp only [missedAt, hold, Option.map_some, Option.getD_some, missed_of_refuses hrefuses]
  rw [← sum_map_filter hnone]
  refine congrArg List.sum (List.map_congr_left fun t ht => ?_)
  obtain ⟨hmem, hkept⟩ := List.mem_filter.mp ht
  have hthen := h.methods t
  simp only [if_pos hmem] at hthen
  cases hold : m.methodDef? t with
  | none =>
    rw [hold, Option.map_none] at hthen
    simp only [missedAt, missesLeft, hold, hthen, Option.map_none, Option.getD_none,
      Option.bind_none]
  | some method =>
    simp only [refusesAt, hold, Option.any_some, Bool.not_eq_true'] at hkept
    rw [hold, Option.map_some] at hthen
    rw [missesLeft_outcome hkept hthen]
    simp only [missedAt, hold, Option.map_some, Option.getD_some]

/-- Once every method that has a body became its outcome, this is what was made of the module. -/
theorem moduleOutcome_of_advanced {methods : List Token} (hpatched : m.Patched m')
    (h : Advanced q m m' methods) (hnodup : methods.Nodup)
    (hall : ∀ t method, m.methodDef? t = some method → method.hasBody = true → t ∈ methods) :
    q.ModuleOutcome m m' (methods.filter (q.refusesAt m)) := by
  refine ⟨hpatched.name, hpatched.types, hpatched.fields, h.references, hpatched.size,
    hnodup.filter _, fun t ht => ?_, fun t method hold hnone => ?_, fun t method b hold hbody => ?_⟩
  · have hrefuses := (List.mem_filter.mp ht).2
    obtain ⟨method, hold, hrefuses⟩ := (Option.any_eq_true _ _).mp hrefuses
    rw [hold, Option.bind_some]
    cases hbody : method.body with
    | none => simp only [refuses, hbody, Bool.false_eq_true] at hrefuses
    | some b => rfl
  · rw [h.methods, hold, Option.map_some, outcome_of_none hnone, ite_self]
  · have hmem : t ∈ methods := hall t method hold (by simp only [MethodDef.hasBody, hbody]; rfl)
    have hfailed : t ∈ methods.filter (q.refusesAt m) ↔ q.refuses method = true := by
      rw [List.mem_filter, refusesAt, hold, Option.any_some]
      exact and_iff_right hmem
    rw [h.methods, hold, Option.map_some, if_pos hmem, hfailed]
    cases hattempt : q.attempt method.signature.returnType b with
    | error e =>
      refine ⟨b, ?_, ?_⟩
      · rw [outcome_of_error hbody hattempt, ← hbody]
      · simp only [refuses, hbody, hattempt]
        exact bodyOutcome_of_error ⟨e, hattempt⟩
    | ok result =>
      obtain ⟨b', offers⟩ := result
      refine ⟨b', ?_, ?_⟩
      · rw [outcome_of_ok hbody hattempt]
      · simp only [refuses, hbody, hattempt, Bool.false_eq_true]
        exact bodyOutcome_of_ok hattempt

/-- A redirection goes through every built module for which it has its replacement. It makes of
the methods what `ModuleOutcome` says; the methods that fail are those that it counts, and its
misses are the calls of the target left in the others. -/
theorem run_exact {helpers : Resolver} (hm : m.Built) (htypes : m.types.size < 0x1000000)
    (hmethods : m.methods.size < 0x1000000) (himport : q.ImportedFrom helpers m.references) :
    ∃ report m' failed, q.pass.run helpers m = .ok report m' ∧ q.ModuleOutcome m m' failed ∧
      report.failedMethods = failed.length ∧
      report.missed = (((candidates m).filter (· ∉ failed)).map (q.missesLeft m')).sum := by
  obtain ⟨report, m', hrun, hadvanced, hfailed, hmissed⟩ := run_of_import himport
  have hpatched : m.Patched m' := (q.pass.patches_run helpers).of_ok hrun
  refine ⟨report, m', (candidates m).filter (q.refusesAt m), hrun, ?_, ?_, ?_⟩
  · exact moduleOutcome_of_advanced hpatched hadvanced (nodup_candidates hm htypes hmethods)
      fun t method ht hbody => mem_candidates hm htypes ht hbody
  · rw [hfailed, List.countP_eq_length_filter]
  · have hothers : (candidates m).filter (· ∉ (candidates m).filter (q.refusesAt m)) =
        (candidates m).filter fun t => !q.refusesAt m t := by
      refine List.filter_congr fun t ht => ?_
      simp only [List.mem_filter, ht, true_and, decide_not, Bool.decide_eq_true]
    rw [hmissed, hothers]
    exact sum_missesLeft hadvanced

/-! ## A module that lists types -/

def listTypes : MethodRef :=
  .plain (.ofClass "System.Reflection.Assembly") "GetTypes"
    ⟨true, .szArray (.ofClass "System.Type"), [], 0⟩

/-- The helper that lists those that can be loaded. -/
def listTypesSafely : MethodRef :=
  .plain (.ofClass helperType) "GetTypesSafelyIgnoreMMHook"
    ⟨false, .szArray (.ofClass "System.Type"), [.ofClass "System.Reflection.Assembly"], 0⟩

def safeHelpers : Resolver :=
  let m := ((Module.empty helperModule).addType "SilksongPrepatcher.Utils" "AssemblyExtensions"
    .isPublic).2
  ⟨[(Module.addMethod ⟨0x02000001⟩ listTypesSafely.name ⟨0x16⟩ listTypesSafely.signature
    none).after m]⟩

def callsOnArgument (tokens : List Token) : Option MethodBody :=
  (MethodBody.ofList (.ldarg 0 :: tokens.map .callvirt ++ [.plain .ret])).toOption

/-- A module with a method that lists types. Another one calls what was never imported, too. -/
def plugins : Module :=
  let m := ((Module.empty "Plugins").addType "Game" "Plugins" .isPublic).2
  let m := (m.importMember (.method listTypes)).2
  let m := (Module.addMethod ⟨0x02000001⟩ "Load" ⟨0x16⟩ listTypesSafely.signature
    (callsOnArgument [⟨0x0A000001⟩])).after m
  (Module.addMethod ⟨0x02000001⟩ "Break" ⟨0x16⟩ listTypesSafely.signature
    (callsOnArgument [⟨0x0A000001⟩, ⟨0x0A000009⟩])).after m

/-- The redirection of the calls that list types. -/
def safely : Redirecting where
  pass := getTypes
  refs := (plugins.references.intern (.method listTypesSafely)).2
  token := ⟨0x0A000002⟩
  replacement := listTypesSafely
  named := by decide +kernel

theorem built_plugins : plugins.Built := by
  unfold plugins
  exact .addedMethod (.addedMethod (.importMember _ (.addType _ _ _ (.empty _))))

theorem importedFrom_safeHelpers : safely.ImportedFrom safeHelpers plugins.references := by
  have htoken : (plugins.references.intern (.method listTypesSafely)).1 = safely.token := by
    decide +kernel
  exact importMethod_eq_ok.mpr ⟨listTypesSafely, by decide +kernel, Prod.ext htoken rfl⟩

/-- The module of plugins is one of those that are redirected exactly. -/
theorem run_exact_plugins : plugins.Built ∧ plugins.types.size < 0x1000000 ∧
    plugins.methods.size < 0x1000000 ∧ safely.ImportedFrom safeHelpers plugins.references ∧
    ∃ report m' failed, getTypes.run safeHelpers plugins = .ok report m' ∧
      safely.ModuleOutcome plugins m' failed ∧ report.failedMethods = failed.length ∧
      report.missed = (((candidates plugins).filter (· ∉ failed)).map (safely.missesLeft m')).sum :=
  have htypes : plugins.types.size < 0x1000000 := by decide +kernel
  have hmethods : plugins.methods.size < 0x1000000 := by decide +kernel
  ⟨built_plugins, htypes, hmethods, importedFrom_safeHelpers,
    run_exact built_plugins htypes hmethods importedFrom_safeHelpers⟩

/-- One of its methods has a call redirected, and the other one fails. -/
example : EStateM.run' (getTypes.run safeHelpers) plugins =
    some { Report.nothing with methodsPatched := 1, replaced := 1, failedMethods := 1 } := by
  decide +kernel

end Redirecting

end CilWeave
