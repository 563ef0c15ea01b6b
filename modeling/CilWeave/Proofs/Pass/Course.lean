import CilWeave.Proofs.Pass.Sweep
import CilWeave.Proofs.Rewrite.Faults

/-
Edits of many methods, none of which ends the others.

An edit that fails with a defect of its method, and takes back what it did, is tried at a method
and leaves nothing but references if it fails (`Module.Tried`). So a pass can go on to the next
method whatever a body holds, and its way through the module is a list of tries, each on what the
tries before left (`Module.Course`). A method all of whose tries failed is as it was, and one
that is tried once becomes what the edit makes of it alone (`Module.Tallied.withstood`).
-/

namespace CilWeave

/-- An edit of the body of a method with some return type. -/
abbrev MethodEdit (α : Type) := (returnType : TypeSig) → Edit (Draft Unit) α

/-- If the edit fails, it is for a defect of the method, and the body is as it was. -/
structure MethodEdit.Withdraws {α : Type} (edit : MethodEdit α) : Prop where
  confined : ∀ returnType, (edit returnType).Confined
  restores : ∀ {returnType : TypeSig} {d d' : Draft Unit} {e : Error},
    edit returnType d = .error e d' → d'.body = d.body

theorem Draft.withdraws_transact {α : Type} {isChange : α → Bool} {edit : Edit (Draft Unit) α}
    (h : edit.Confined) :
    MethodEdit.Withdraws fun returnType => transact returnType isChange edit where
  confined _ := confined_transact h
  restores := body_of_transact_error

theorem RewriteRule.Confined.withdraws {rule : RewriteRule Unit} (h : rule.Confined) :
    MethodEdit.Withdraws rule.rewrite where
  confined := h.rewrite
  restores := Draft.body_of_transact_error

namespace Module

variable {α : Type} {edit : MethodEdit α} {m m₁ m' : Module} {t t' : Token} {failed : Bool}
  {tries : List (Token × Bool)} {edits : Token → MethodEdit α → Prop}

/-! ## One try -/

/-- What a try of an edit at the method of a token makes of a module. -/
inductive Tried (edit : MethodEdit α) (m : Module) (t : Token) :
    Module → (failed : Bool) → Prop where
  | absent {failed : Bool} : m.methodDef? t = none → Tried edit m t m failed
  | bodiless {method : MethodDef} : m.methodDef? t = some method → method.body = none →
      Tried edit m t m false
  | passed {method : MethodDef} {body : MethodBody} {a : α} {d : Draft Unit} :
      m.methodDef? t = some method → method.body = some body →
      edit method.signature.returnType ⟨body, m.references, ()⟩ = .ok a d →
      Tried edit m t (m.commit t method d) false
  | failed {method : MethodDef} {body : MethodBody} {e : Error} {d : Draft Unit} :
      m.methodDef? t = some method → method.body = some body →
      edit method.signature.returnType ⟨body, m.references, ()⟩ = .error e d →
      e.isMethodScoped = true → Tried edit m t { m with references := d.references } true

theorem Tried.kept (h : Tried edit m t m₁ failed) (hkept : t' ≠ t ∨ failed = true) :
    m₁.methodDef? t' = m.methodDef? t' := by
  cases h with
  | absent => rfl
  | bodiless => rfl
  | passed ht =>
    obtain hne | hfailed := hkept
    · exact methodDef?_commit_of_ne hne _ _
    · cases hfailed
  | failed => rfl

/-- An edit that withdraws has its try at any method, and the outcome of the try tells whether it
failed. -/
theorem exists_tried (absent : α) {method : MethodDef} (hedit : edit.Withdraws)
    (ht : m.methodDef? t = some method) : ∃ m₁ failed, Tried edit m t m₁ failed ∧
      (failed = false ∧ (∃ a, m.editMethod t method absent edit = .ok a m₁) ∨
        failed = true ∧ ∃ e, e.isMethodScoped = true ∧
          m.editMethod t method absent edit = .error e m₁) := by
  cases hbody : method.body with
  | none =>
    refine ⟨m, false, .bodiless ht hbody, .inl ⟨rfl, absent, ?_⟩⟩
    simp only [editMethod, hbody]
  | some body =>
    cases hresult : edit method.signature.returnType ⟨body, m.references, ()⟩ with
    | ok a d =>
      refine ⟨m.commit t method d, false, .passed ht hbody hresult, .inl ⟨rfl, a, ?_⟩⟩
      simp only [editMethod, hbody, hresult]
    | error e d =>
      have hscoped : e.isMethodScoped = true := hedit.confined _ _ _ _ hresult
      refine ⟨_, true, .failed ht hbody hresult hscoped, .inr ⟨rfl, e, hscoped, ?_⟩⟩
      simp only [editMethod, hbody, hresult]
      rw [commit_of_kept ht (hbody.trans (congrArg some (hedit.restores hresult).symm))]

/-! ## One try after the other -/

/-- Tries of edits at the methods of some tokens. References may be imported in between. -/
inductive Course (edits : Token → MethodEdit α → Prop) :
    Module → List (Token × Bool) → Module → Prop where
  | done {m : Module} {refs : ReferenceTable} : m.references.GrowsTo refs →
      Course edits m [] { m with references := refs }
  | step {m m₁ m' : Module} {refs : ReferenceTable} {t : Token} {failed : Bool}
      {edit : MethodEdit α} {tries : List (Token × Bool)} : m.references.GrowsTo refs →
      edits t edit → Tried edit { m with references := refs } t m₁ failed →
      Course edits m₁ tries m' → Course edits m ((t, failed) :: tries) m'

theorem Course.of_imported {refs : ReferenceTable} (hgrows : m.references.GrowsTo refs)
    (h : Course edits { m with references := refs } tries m') : Course edits m tries m' := by
  cases h with
  | done hlater => exact .done (hgrows.trans hlater)
  | step hlater hedit htried hrest => exact .step (hgrows.trans hlater) hedit htried hrest

theorem Course.kept (h : Course edits m tries m') :
    (∀ failed, (t, failed) ∈ tries → failed = true) → m'.methodDef? t = m.methodDef? t := by
  induction h with
  | done => exact fun _ => rfl
  | @step m m₁ m' refs first failed edit tries _ _ htried _ ih =>
    intro hall
    have hone : t ≠ first ∨ failed = true := by
      by_cases hne : t = first
      · exact .inr (hall failed (hne ▸ List.mem_cons_self))
      · exact .inl hne
    calc m'.methodDef? t
      _ = m₁.methodDef? t := ih fun failed hmem => hall failed (List.mem_cons_of_mem _ hmem)
      _ = m.methodDef? t := htried.kept hone

/-- A method that is tried once is tried as it was, and then no other try changes it. -/
theorem Course.alone (h : Course edits m tries m') (hnodup : (tries.map Prod.fst).Nodup) :
    (t, failed) ∈ tries → ∃ edit m₀ m₁, edits t edit ∧ m₀.methodDef? t = m.methodDef? t ∧
      Tried edit m₀ t m₁ failed ∧ m'.methodDef? t = m₁.methodDef? t := by
  induction h with
  | done => exact fun hmem => absurd hmem List.not_mem_nil
  | @step m m₁ m' refs first firstFailed edit tries _ hedit htried hcourse ih =>
    obtain ⟨hfresh, hrest⟩ := List.nodup_cons.mp hnodup
    intro hmem
    rcases List.mem_cons.mp hmem with heq | hlater
    · cases heq
      refine ⟨edit, { m with references := refs }, m₁, hedit, rfl, htried,
        hcourse.kept fun failed hlater => ?_⟩
      exact absurd (List.mem_map_of_mem hlater) hfresh
    · have hne : t ≠ first := by
        rintro rfl
        exact hfresh (List.mem_map.mpr ⟨_, hlater, rfl⟩)
      obtain ⟨edit, m₀, m₂, hedit, hbefore, htried', hafter⟩ := ih hrest hlater
      exact ⟨edit, m₀, m₂, hedit, hbefore.trans (htried.kept (.inl hne)), htried', hafter⟩

/-- The methods of some tokens were tried in their order, whatever is wrong with them. -/
structure Withstood (edits : Token → MethodEdit α → Prop) (m m' : Module) (methods : List Token)
    (failures : Nat) (tries : List (Token × Bool)) : Prop where
  /-- Every method had its try. -/
  tokens : tries.map Prod.fst = methods
  /-- The tries that failed are counted, and nothing else. -/
  failures : tries.countP Prod.snd = failures
  /-- Each try was on what the tries before it left. -/
  course : Course edits m tries m'
  /-- A method whose tries all failed, or that was not tried at all, is as it was. -/
  kept : ∀ t, (∀ failed, (t, failed) ∈ tries → failed = true) →
    m'.methodDef? t = m.methodDef? t
  /-- Where no method is tried twice, each is tried as it was and becomes what that made of it. -/
  alone : methods.Nodup → ∀ t failed, (t, failed) ∈ tries → ∃ edit m₀ m₁, edits t edit ∧
    m₀.methodDef? t = m.methodDef? t ∧ Tried edit m₀ t m₁ failed ∧
      m'.methodDef? t = m₁.methodDef? t

/-- The methods of some tokens are tried in their order while failures are counted. -/
structure Tallied (edits : Token → MethodEdit α → Prop) (m : Module) (methods : List Token)
    (before after : Nat) (tries : List (Token × Bool)) (m' : Module) : Prop where
  tokens : tries.map Prod.fst = methods
  failures : after = before + tries.countP Prod.snd
  course : Course edits m tries m'

theorem Tallied.nil (edits : Token → MethodEdit α → Prop) (m : Module) (count : Nat) :
    Tallied edits m [] count count [] m :=
  ⟨rfl, rfl, .done (.refl _)⟩

theorem Tallied.cons {methods : List Token} {before between after : Nat} {refs : ReferenceTable}
    (hgrows : m.references.GrowsTo refs) (hedit : edits t edit)
    (htried : Tried edit { m with references := refs } t m₁ failed)
    (hcount : between = before + if failed then 1 else 0)
    (h : Tallied edits m₁ methods between after tries m') :
    Tallied edits m (t :: methods) before after ((t, failed) :: tries) m' where
  tokens := congrArg (t :: ·) h.tokens
  failures := calc after
    _ = between + tries.countP Prod.snd := h.failures
    _ = before + ((if failed then 1 else 0) + tries.countP Prod.snd) := by
      rw [hcount, Nat.add_assoc]
    _ = before + ((t, failed) :: tries).countP Prod.snd := by
      rw [List.countP_cons, Nat.add_comm (List.countP _ _)]
  course := .step hgrows hedit htried h.course

theorem Tallied.withstood {methods : List Token} {failures : Nat}
    (h : Tallied edits m methods 0 failures tries m') :
    Withstood edits m m' methods failures tries where
  tokens := h.tokens
  failures := ((Nat.zero_add _).symm.trans h.failures.symm)
  course := h.course
  kept _ := h.course.kept
  alone hnodup _ _ := h.course.alone (h.tokens ▸ hnodup)

theorem Withstood.of_imported {methods : List Token} {failures : Nat} {refs : ReferenceTable}
    (hgrows : m.references.GrowsTo refs)
    (h : Withstood edits { m with references := refs } m' methods failures tries) :
    Withstood edits m m' methods failures tries where
  tokens := h.tokens
  failures := h.failures
  course := h.course.of_imported hgrows
  kept := h.kept
  alone := h.alone

/-! ## Sweeps -/

/-- A sweep of a rule whose faults are confined comes to its end. -/
theorem exists_tallied_sweepMethods {rule : RewriteRule Unit} (hrule : rule.Confined) :
    ∀ (methods : List Token) (report : Report) (patched : List Token) (m : Module),
    ∃ tries result m', sweepMethods rule methods report patched m = .ok result m' ∧
      Tallied (fun _ edit => edit = rule.rewrite) m methods report.failedMethods
        result.1.failedMethods tries m'
  | [], report, patched, m => ⟨[], (report, patched), m, rfl, .nil _ m _⟩
  | t :: rest, report, patched, m => by
    -- The others have their tries, whatever came of this one.
    have goOn : ∀ {m₁ : Module} {failed : Bool} {report₁ : Report} {patched₁ : List Token},
        Tried rule.rewrite m t m₁ failed →
        report₁.failedMethods = report.failedMethods + (if failed then 1 else 0) →
        ∃ tries result m', sweepMethods rule rest report₁ patched₁ m₁ = .ok result m' ∧
          Tallied (fun _ edit => edit = rule.rewrite) m (t :: rest) report.failedMethods
            result.1.failedMethods tries m' := by
      intro m₁ failed report₁ patched₁ htried hcount
      obtain ⟨tries, result, m', hsweep, htallied⟩ :=
        exists_tallied_sweepMethods hrule rest report₁ patched₁ m₁
      exact ⟨(t, failed) :: tries, result, m', hsweep, htallied.cons (.refl _) rfl htried hcount⟩
    rw [sweepMethods]
    cases ht : m.methodDef? t with
    | none => exact goOn (.absent ht : Tried rule.rewrite m t m false) rfl
    | some method =>
      obtain ⟨m₁, failed, htried, ⟨rfl, offers, hresult⟩ | ⟨rfl, e, hscoped, hresult⟩⟩ :=
        exists_tried [] hrule.withdraws ht
      · simp only [hresult]
        split <;> exact goOn htried rfl
      · simp only [hresult, if_pos hscoped]
        exact goOn htried rfl

theorem exists_withstood_sweep {rule : RewriteRule Unit} (hrule : rule.Confined)
    (methods : List Token) (m : Module) :
    ∃ tries result m', sweep rule methods m = .ok result m' ∧
      Withstood (fun _ edit => edit = rule.rewrite) m m' methods result.1.failedMethods tries := by
  obtain ⟨tries, result, m', hsweep, htallied⟩ :=
    exists_tallied_sweepMethods hrule methods .nothing [] m
  refine ⟨tries, (result.1, result.2.reverse), m', ?_, htallied.withstood⟩
  simp only [sweep, hsweep]

end Module

end CilWeave
