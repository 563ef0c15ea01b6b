import CilWeave.Proofs.Pass.CallRedirection.Exactness
import CilWeave.Proofs.Pass.FieldAccess.Exclusion
import CilWeave.Proofs.Pass.FieldAccess.Tracking
import CilWeave.Proofs.Rewrite.Straight

/-
Calls through tokens that name no method.

A pass checks a method against the references there are when it is done with it, those it has
imported itself included. So a method is only sure to be kept if control can come to the call of
a method that is not known even in the end (`Module.KeepsDangling`). A token that named nothing at
the start may have come to name a row that the pass imported; nothing else gets such a method
through (`Pass.kept_or_imported`), and this does (`Pass.not_all_dangling_kept`).
-/

namespace CilWeave

/-! ## Rules -/

theorem FieldRouting.IsPlain.goesOn {i : Instruction} (h : FieldRouting.IsPlain i) :
    i.op.flow.goesOn = true := by
  rcases h with ⟨-, hflow⟩ | hcall
  · rw [hflow]
    rfl
  · rcases OpCode.of_isCall hcall with hop | hop <;> rw [hop] <;> rfl

theorem FieldRouting.straight_rule (r : FieldRouting) : r.rule.Straight := by
  intro body site i s s' replacement _ happlies hbuild
  have haccess : FieldRouting.isAccess i.op = true :=
    (FieldRouting.applies_iff.mp (show r.applies s.references i = true from happlies)).1
  obtain ⟨_, _, _, -, -, -, hbuilds⟩ := FieldRouting.rule_eq_ok hbuild
  refine ⟨?_, fun hop => ?_, fun j hj => (hbuilds.isPlain j hj).goesOn⟩
  · simp only [FieldRouting.isAccess, Bool.or_eq_true, beq_iff_eq] at haccess
    rcases haccess with (hop | hop) | hop <;> rw [hop] <;> rfl
  · rcases OpCode.of_callsMethod hop with hop | hop | hop <;> rw [hop] at haccess <;> cases haccess

theorem CallRedirection.straight_rule (r : CallRedirection) (token : Token)
    (replacement : MethodRef) : (r.rule token replacement).Straight := by
  intro body site i s s' replaced hi happlies hbuild
  simp only [CallRedirection.rule, CallRedirection.applies, Bool.and_eq_true, Bool.or_eq_true,
    beq_iff_eq] at happlies
  obtain ⟨hcall, htarget⟩ := happlies
  split at htarget
  · rename_i t ht
    split at htarget
    · rename_i method hmethod
      simp only [CallRedirection.rule, MethodBody.instruction, hi, ht, hmethod] at hbuild
      split at hbuild
      · cases hbuild
        refine ⟨?_, fun _ => ⟨method, ?_⟩, fun j hj => ?_⟩
        · rcases hcall with hop | hop <;> rw [hop] <;> rfl
        · simp only [Instruction.calledMethod, ht, Option.map_some, hmethod]
        · rw [List.mem_singleton.mp hj]
          rfl
      · cases hbuild
    · cases htarget
  · cases htarget

/-! ## Modules -/

namespace Module

variable {m m₁ m₂ : Module} {rule : RewriteRule Unit}

/-- References are only added, and a method is as it was if control can come to the call of a
method that is not known even in the end. -/
structure KeepsDangling (m m' : Module) : Prop where
  references : m.references.GrowsTo m'.references
  kept : ∀ t method b, m.methodDef? t = some method → method.body = some b →
    ¬ b.ResolvesCalls m'.references → m'.methodDef? t = some method

namespace KeepsDangling

theorem refl (m : Module) : KeepsDangling m m :=
  ⟨.refl m.references, fun _ _ _ ht _ _ => ht⟩

theorem trans (h : KeepsDangling m m₁) (h' : KeepsDangling m₁ m₂) : KeepsDangling m m₂ := by
  refine ⟨h.references.trans h'.references, fun t method b ht hbody hdangling => ?_⟩
  have hdangling₁ : ¬ b.ResolvesCalls m₁.references :=
    fun hresolves => hdangling (hresolves.of_growsTo h'.references)
  exact h'.kept t method b (h.kept t method b ht hbody hdangling₁) hbody hdangling

end KeepsDangling

theorem keepsDangling_editMethod (hstraight : rule.Straight) (himports : rule.OnlyImports)
    {t : Token} {method : MethodDef} (ht : m.methodDef? t = some method) :
    KeepsDangling m ((editMethod t method [] rule.rewrite).after m) := by
  refine ⟨(patched_editMethod himports.safe_rewrite ht).references,
    fun t' method' b ht' hbody hdangling => ?_⟩
  by_cases hne : t' = t
  · subst hne
    cases ht.symm.trans ht'
    simp only [Edit.after, editMethod, hbody] at hdangling ⊢
    cases hresult : rule.rewrite method.signature.returnType ⟨b, m.references, ()⟩ with
    | error e d =>
      simp only [hresult] at hdangling ⊢
      exact (methodDef?_commit_of_kept ht hbody (Draft.body_of_transact_error hresult) t').trans ht
    | ok offers d =>
      simp only [hresult] at hdangling ⊢
      have hkept : d.body = b := by
        by_contra hchanged
        exact hdangling (hstraight.resolvesCalls himports hresult hchanged)
      exact (methodDef?_commit_of_kept ht hbody hkept t').trans ht
  · exact (kept_editMethod hne).trans ht'

theorem keepsDangling_sweep (hstraight : rule.Straight) (himports : rule.OnlyImports)
    (methods : List Token) (m : Module) : KeepsDangling m ((sweep rule methods).after m) := by
  rw [after_sweep]
  exact sweepMethods_preserves
    (fun _ _ _ _ hm ht => hm.trans (keepsDangling_editMethod hstraight himports ht)) (.refl m)

end Module

/-! ## Passes -/

open CilWeave.Module (KeepsDangling)

theorem CallRedirection.keepsDangling_run (r : CallRedirection) (helpers : Resolver) (m : Module) :
    KeepsDangling m ((r.run helpers).after m) := by
  simp only [Edit.after, CallRedirection.run]
  cases himport : helpers.importMethod r.replacementModule r.replacement m.references with
  | error e references =>
    obtain ⟨-, rfl⟩ := importMethod_eq_error_iff.mp himport
    exact .refl m
  | ok token references =>
    have hrefs : KeepsDangling m { m with references } :=
      ⟨growsTo_importMethod himport, fun _ _ _ ht _ _ => ht⟩
    simp only
    cases references.method token with
    | error e => exact hrefs
    | ok replacement =>
      simp only
      have hsweep := Module.keepsDangling_sweep (r.straight_rule token replacement)
        (r.onlyImports_rule token replacement) (candidates m) { m with references }
      simp only [Edit.after] at hsweep
      cases hresult : Module.sweep (r.rule token replacement) (candidates m)
          { m with references } with
      | ok result m' =>
        rw [hresult] at hsweep
        exact hrefs.trans hsweep
      | error e m' =>
        rw [hresult] at hsweep
        exact hrefs.trans hsweep

theorem FieldAccess.keepsDangling_run (f : FieldAccess) (env : Environment) (s : Session) :
    KeepsDangling s.module ((f.run env).after s).module :=
  run_preserves (.refl s.module) fun routing _ _ _ _ hm ht => hm.trans
    (Module.keepsDangling_editMethod routing.straight_rule
      routing.onlyExtends_rule.onlyImports ht)

theorem ReferenceTable.GrowsTo.new_of_method {refs later : ReferenceTable}
    (h : refs.GrowsTo later) {token : Token} {callee : MethodRef}
    (hnot : ∀ callee, refs.method token ≠ .ok callee) (hmethod : later.method token = .ok callee) :
    ∃ row, token.index? = some row ∧ refs.size ≤ row ∧
      later.entries[row]? = some (.method callee) := by
  obtain ⟨htable, row, hindex, hrow⟩ := get_iff.mp (method_iff.mp hmethod)
  refine ⟨row, hindex, Nat.le_of_not_lt fun hlt => hnot callee ?_, hrow⟩
  have hold : refs.entries[row]? = some refs.entries[row] := Array.getElem?_eq_getElem hlt
  have hsame : refs.entries[row] = .method callee :=
    Option.some.inj ((h.getElem?_eq hold).symm.trans hrow)
  exact method_iff.mpr (get_iff.mpr ⟨htable, row, hindex, hsame ▸ hold⟩)

namespace Pass

variable {pass : Pass} {env : Environment} {s : Session}

/-- Where control can come to a call through a token that named no method when a pass over fields
or calls started, the method is kept whatever comes of the pass, unless the token is that of a
row in which the pass has put a method. -/
theorem kept_or_imported (hpass : (∃ f, pass = .fieldAccess f) ∨ ∃ r, pass = .callRedirection r)
    {t token : Token} {method : MethodDef} {b : MethodBody} {id : InstrId} {i : Instruction}
    (ht : s.module.methodDef? t = some method) (hbody : method.body = some b)
    (hreaches : b.Reaches id) (hi : b.code.get? id = some i) (hop : i.op.callsMethod = true)
    (htoken : i.token? = some token)
    (hdangling : ∀ callee, s.module.references.method token ≠ .ok callee) :
    ((pass.run env).after s).module.methodDef? t = some method ∨
      ∃ row callee, token.index? = some row ∧ s.module.references.size ≤ row ∧
        ((pass.run env).after s).module.references.entries[row]? = some (.method callee) := by
  have hkeeps : KeepsDangling s.module ((pass.run env).after s).module := by
    rcases hpass with ⟨f, rfl⟩ | ⟨r, rfl⟩
    · exact f.keepsDangling_run env s
    · show KeepsDangling s.module ((Session.onModule (r.run env.helpers)).after s).module
      rw [Session.module_onModule]
      exact r.keepsDangling_run env.helpers s.module
  by_cases hresolves : b.ResolvesCalls ((pass.run env).after s).module.references
  · obtain ⟨callee, hcallee⟩ := hresolves id i hreaches hi hop
    have hmethod : ((pass.run env).after s).module.references.method token = .ok callee := by
      simp only [Instruction.calledMethod, htoken, Option.map_some] at hcallee
      split at hcallee
      · rename_i heq
        cases hcallee
        exact Option.some.inj heq
      · cases hcallee
    obtain ⟨row, hindex, hnew, hrow⟩ := hkeeps.references.new_of_method hdangling hmethod
    exact .inr ⟨row, callee, hindex, hnew, hrow⟩
  · exact .inl (hkeeps.kept t method b ht hbody hresolves)

/-! ## A token that names nothing, and one that comes to name something -/

open CallRedirection (getTypes)
open Redirecting (callsOnArgument listTypes listTypesSafely safeHelpers)

/-- A body that lists the types of its argument, and hands them on through a token. -/
def handing (token : Token) : MethodBody :=
  (callsOnArgument [⟨0x0A000001⟩, token]).getD .empty

def handingMethod (token : Token) : MethodDef :=
  ⟨⟨0x06000001⟩, ⟨0x02000001⟩, "Load", ⟨0x16⟩, listTypesSafely.signature, some (handing token)⟩

/-- A module with that method, and with one reference. -/
def handingModule (token : Token) : Session where
  module :=
    let m := ((Module.empty "Plugins").addType "Game" "Plugins" .isPublic).2
    let m := (m.importMember (.method listTypes)).2
    (Module.addMethod ⟨0x02000001⟩ "Load" ⟨0x16⟩ listTypesSafely.signature
      (some (handing token))).after m
  files := FieldAccess.firstSession.files

/-- An environment with the helper that lists types safely. -/
def safeEnvironment : Environment := { FieldAccess.recording with helpers := safeHelpers }

theorem methodDef?_handing (token : Token) :
    (handingModule token).module.methodDef? ⟨0x06000001⟩ = some (handingMethod token) := rfl

theorem get?_handing (token : Token) :
    (handing token).code.get? ⟨2⟩ = some (.callvirt token) := rfl

theorem reaches_handing (token : Token) : (handing token).Reaches ⟨2⟩ :=
  .next (i := .callvirt ⟨0x0A000001⟩)
    (.next (i := .ldarg 0) (.entry (.first rfl)) rfl rfl rfl) rfl rfl rfl

theorem dangling_handing {token : Token}
    (h : ((handingModule token).module.references.method token).isOk = false) (callee : MethodRef) :
    (handingModule token).module.references.method token ≠ .ok callee := by
  intro heq
  rw [heq] at h
  cases h

/-- With a token that nothing comes to be named by, the method is kept. -/
theorem kept_or_imported_handing :
    ((run (.callRedirection getTypes) safeEnvironment).after
        (handingModule ⟨0x0A000009⟩)).module.methodDef? ⟨0x06000001⟩ =
      some (handingMethod ⟨0x0A000009⟩) := by
  rcases kept_or_imported (.inr ⟨getTypes, rfl⟩) (methodDef?_handing ⟨0x0A000009⟩) rfl
      (reaches_handing ⟨0x0A000009⟩) (get?_handing ⟨0x0A000009⟩) rfl rfl
      (dangling_handing (by decide +kernel)) with hkept | ⟨row, callee, hindex, -, hrow⟩
  · exact hkept
  · cases hindex
    have hnone : ((run (.callRedirection getTypes) safeEnvironment).after
        (handingModule ⟨0x0A000009⟩)).module.references.entries[8]? = none := by decide +kernel
    cases hnone.symm.trans hrow

/-- It fails alone. -/
example : EStateM.run' (run (.callRedirection getTypes) safeEnvironment)
      (handingModule ⟨0x0A000009⟩) = some { Report.nothing with failedMethods := 1 } := by
  decide +kernel

/-- It is not enough that the token names nothing when the pass starts: the helper gets the row
of the token, and the method is rewritten instead of failing. -/
theorem not_all_dangling_kept :
    ¬ ∀ (r : CallRedirection) (env : Environment) (s : Session) (t token : Token)
      (method : MethodDef) (b : MethodBody) (id : InstrId) (i : Instruction),
      s.module.methodDef? t = some method → method.body = some b → b.Reaches id →
      b.code.get? id = some i → i.op.callsMethod = true → i.token? = some token →
      (∀ callee, s.module.references.method token ≠ .ok callee) →
      ((run (.callRedirection r) env).after s).module.methodDef? t = some method := by
  intro hall
  have hkept := hall getTypes safeEnvironment (handingModule ⟨0x0A000002⟩) ⟨0x06000001⟩
    ⟨0x0A000002⟩ _ _ ⟨2⟩ _ (methodDef?_handing ⟨0x0A000002⟩) rfl (reaches_handing ⟨0x0A000002⟩)
    (get?_handing ⟨0x0A000002⟩) rfl rfl (dangling_handing (by decide +kernel))
  have hcode := congrArg (Option.map fun method => (method.body.map fun b =>
    b.code.instructions.map Instruction.op)) hkept
  revert hcode
  decide +kernel

end Pass

end CilWeave
