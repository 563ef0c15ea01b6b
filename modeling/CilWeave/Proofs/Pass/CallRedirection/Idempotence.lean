import CilWeave.Proofs.Pass.CallRedirection.Exactness
import CilWeave.Proofs.Pass.FieldAccess.Recording

/-
To redirect twice is to redirect once.

The second pass finds the replacement among the references, at the row of the first one
(`ReferenceTable.intern_intern`), and it looks through the same methods
(`CallRedirection.candidates_congr`). Each is its own outcome by then, so the module stays as it
is, and no call counts as replaced unless the replacement is a target itself
(`CallRedirection.run_idempotent`).
-/

namespace CilWeave

/-- What was interned is found where it is. -/
theorem ReferenceTable.intern_intern {table later : ReferenceTable} {member : MemberRef}
    {token : Token} (h : table.intern member = (token, later)) :
    later.intern member = (token, later) := by
  cases hfind : table.find? member with
  | some found =>
    rw [intern_of_some hfind] at h
    cases h
    exact intern_of_some hfind
  | none =>
    rw [intern_of_none hfind] at h
    cases h
    refine intern_of_some ?_
    simp only [find?, Option.map_eq_none_iff] at hfind ⊢
    rw [Array.findIdx?_push, hfind]
    simp only [beq_self_eq_true, if_true]
    rfl

namespace Module

variable {m m' : Module}

theorem allTypes_of_types (h : m'.types = m.types) : m'.allTypes = m.allTypes := by
  have hnested : ∀ level, m'.nestedIn level = m.nestedIn level := by
    intro level
    have hdef : m'.typeDef? = m.typeDef? := funext (typeDef?_of_types h)
    simp only [nestedIn, hdef]
  have hlevels : ∀ (count : Nat) (level : List TypeDef),
      m'.levelsFrom count level = m.levelsFrom count level := by
    intro count
    induction count with
    | zero => intro level; rfl
    | succ count ih =>
      intro level
      cases level with
      | nil => rfl
      | cons first rest => simp only [levelsFrom, hnested, ih]
  simp only [allTypes, topLevelTypes, h, hlevels]

end Module

namespace CallRedirection

variable {m m' : Module}

/-- A change of methods that keeps tokens, and bodies where there are some, keeps the
candidates. -/
theorem candidates_of_map {f : Token → MethodDef → MethodDef} (htypes : m'.types = m.types)
    (hmethods : ∀ t, m'.methodDef? t = (m.methodDef? t).map (f t))
    (htoken : ∀ t method, (f t method).token = method.token)
    (hbody : ∀ t method, (f t method).hasBody = method.hasBody) :
    candidates m' = candidates m := by
  have hlisted : ∀ tokens : List Token,
      ((tokens.filterMap m'.methodDef?).filter MethodDef.hasBody).map MethodDef.token =
        ((tokens.filterMap m.methodDef?).filter MethodDef.hasBody).map MethodDef.token := by
    intro tokens
    induction tokens with
    | nil => rfl
    | cons t rest ih =>
      rw [List.filterMap_cons, List.filterMap_cons, hmethods]
      cases m.methodDef? t with
      | none => exact ih
      | some method =>
        simp only [Option.map_some, List.filter_cons, hbody]
        split
        · rw [List.map_cons, List.map_cons, ih, htoken]
        · exact ih
  simp only [candidates, Module.allMethods, Module.allTypes_of_types htypes, List.filter_flatMap,
    List.map_flatMap, hlisted]

end CallRedirection

namespace Redirecting

variable {q : Redirecting} {m m' : Module} {helpers : Resolver}

theorem token_outcome (q : Redirecting) (method : MethodDef) :
    (q.outcome method).token = method.token := by
  simp only [outcome]
  split
  · rfl
  · split <;> rfl

theorem hasBody_outcome (q : Redirecting) (method : MethodDef) :
    (q.outcome method).hasBody = method.hasBody := by
  simp only [outcome]
  split
  · rfl
  · rename_i b hbody
    split
    · simp only [MethodDef.hasBody, hbody, Option.isSome_some]
    · rfl

/-- The replacement is the method that the helpers have, unless there are more references than
tokens can tell apart. -/
theorem ImportedFrom.resolve_eq (h : q.ImportedFrom helpers m.references)
    (hfits : q.refs.FitsTokens) :
    helpers.resolve q.pass.replacementModule q.pass.replacement = .ok q.replacement := by
  obtain ⟨method, hresolve, hintern⟩ := importMethod_eq_ok.mp h
  have hget : (m.references.intern (.method method)).2.get
      (m.references.intern (.method method)).1 = .ok (.method method) :=
    ReferenceTable.get_intern (by rwa [hintern])
  rw [hintern] at hget
  have hnamed := q.named
  rw [ReferenceTable.method_iff, hget] at hnamed
  cases hnamed
  exact hresolve

end Redirecting

namespace CallRedirection

open Redirecting

variable {m m' : Module} {r : CallRedirection} {helpers : Resolver} {report : Report}

/-- To redirect once more changes nothing at all, and nothing is counted as replaced then, unless
the replacement is a target itself. -/
theorem run_idempotent (h : r.run helpers m = .ok report m') :
    ∃ (q : Redirecting) (again : Report), q.pass = r ∧ q.ImportedFrom helpers m'.references ∧
      q.refs = m'.references ∧
      (m'.references.FitsTokens →
        helpers.resolve r.replacementModule r.replacement = .ok q.replacement) ∧
      r.run helpers m' = .ok again m' ∧
      (r.targets q.replacement = false → again.replaced = 0 ∧ again.methodsPatched = 0) := by
  obtain ⟨q, rfl, himport⟩ := exists_of_run h
  obtain ⟨report', m₁, hrun, hadvanced, -⟩ := run_of_import himport
  rw [h] at hrun
  cases hrun
  have hpatched : m.Patched m' := (q.pass.patches_run helpers).of_ok h
  have himport' : q.ImportedFrom helpers m'.references := by
    obtain ⟨method, hresolve, hintern⟩ := importMethod_eq_ok.mp himport
    rw [hadvanced.references]
    exact importMethod_eq_ok.mpr ⟨method, hresolve, ReferenceTable.intern_intern hintern⟩
  have hcandidates : candidates m' = candidates m := by
    refine candidates_of_map hpatched.types hadvanced.methods ?_ ?_
    · intro t method
      split
      · exact q.token_outcome method
      · rfl
    · intro t method
      split
      · exact q.hasBody_outcome method
      · rfl
  have hstable : ∀ t ∈ candidates m', ∀ method, m'.methodDef? t = some method →
      q.outcome method = method := by
    intro t ht method hmethod
    rw [hcandidates] at ht
    rw [hadvanced.methods, Option.map_eq_some_iff] at hmethod
    obtain ⟨old, -, rfl⟩ := hmethod
    rw [if_pos ht]
    exact (q.outcome_outcome old).1
  obtain ⟨again, patched, hsweep, hcounts⟩ :
      ∃ again patched, Module.sweepMethods q.rule (candidates m') .nothing [] m' =
        .ok (again, patched) m' ∧ _ :=
    sweepMethods_of_stable hadvanced.references (candidates m') hstable
  refine ⟨q, again, rfl, himport', hadvanced.references.symm, fun hfits => ?_, ?_, hcounts⟩
  · rw [hadvanced.references] at hfits
    exact himport'.resolve_eq hfits
  · have hsame : { m' with references := q.refs } = m' := by rw [← hadvanced.references]
    rw [Redirecting.rule] at hsweep
    simp only [run, show _ = _ from himport', q.named, hsame, Module.sweep, hsweep]

/-- It does so for the module of plugins. -/
theorem run_idempotent_plugins : ∃ (report : Report) (m' : Module),
    getTypes.run safeHelpers plugins = .ok report m' ∧
    ∃ (q : Redirecting) (again : Report), q.pass = getTypes ∧
      q.ImportedFrom safeHelpers m'.references ∧ q.refs = m'.references ∧
      (m'.references.FitsTokens →
        safeHelpers.resolve getTypes.replacementModule getTypes.replacement = .ok q.replacement) ∧
      getTypes.run safeHelpers m' = .ok again m' ∧
      (getTypes.targets q.replacement = false →
        again.replaced = 0 ∧ again.methodsPatched = 0) := by
  obtain ⟨report, hrun⟩ := Edit.eq_ok_of_isSome
    (show (EStateM.run' (getTypes.run safeHelpers) plugins).isSome = true by decide +kernel)
  exact ⟨report, _, hrun, run_idempotent hrun⟩

end CallRedirection

end CilWeave
