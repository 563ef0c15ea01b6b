import CilWeave.Proofs.Module.Built
import CilWeave.Proofs.Rewrite.Safety
import CilWeave.Pass.Sweep

/-
What a run of passes can leave of a module.

`Module.Patched` relates a module to what became of it: the definitions are the same,
references were only added, and every body is the old one or verified against the
references there are at the end. It is kept by the edit of one method and carried
through the loops of each pass. A later pass only adds references, so it cannot spoil a
body that an earlier one verified (`Module.Patched.trans`). The main statement,
`Registry.patched_run`, holds for every registry and every outcome.
-/

namespace CilWeave

/-- A method that at most has another body, and then one that is verified. -/
structure MethodDef.Patched (refs : ReferenceTable) (method method' : MethodDef) : Prop where
  token : method'.token = method.token
  declaringType : method'.declaringType = method.declaringType
  name : method'.name = method.name
  flags : method'.flags = method.flags
  signature : method'.signature = method.signature
  body : method'.body = method.body ∨ ∃ old b, method.body = some old ∧ method'.body = some b ∧
    b.IsVerified refs method.signature.returnType

namespace MethodDef.Patched

variable {refs later : ReferenceTable} {method method' method'' : MethodDef}

theorem refl (refs : ReferenceTable) (method : MethodDef) : Patched refs method method :=
  ⟨rfl, rfl, rfl, rfl, rfl, .inl rfl⟩

theorem trans (hgrows : refs.GrowsTo later) (h : Patched refs method method')
    (h' : Patched later method' method'') : Patched later method method'' := by
  refine ⟨h'.token.trans h.token, h'.declaringType.trans h.declaringType, h'.name.trans h.name,
    h'.flags.trans h.flags, h'.signature.trans h.signature, ?_⟩
  rcases h'.body with hkept | ⟨old', b, hold', hb, hverified⟩
  · rcases h.body with hbody | ⟨old, b, hold, hb, hverified⟩
    · exact .inl (hkept.trans hbody)
    · exact .inr ⟨old, b, hold, hkept.trans hb, hverified.of_growsTo hgrows⟩
  · rw [h.signature] at hverified
    rcases h.body with hbody | ⟨old, _, hold, -, -⟩
    · exact .inr ⟨old', b, hbody ▸ hold', hb, hverified⟩
    · exact .inr ⟨old, b, hold, hb, hverified⟩

theorem hasBody_eq (h : Patched refs method method') : method'.hasBody = method.hasBody := by
  unfold MethodDef.hasBody
  rcases h.body with hkept | ⟨old, b, hold, hb, -⟩
  · rw [hkept]
  · rw [hold, hb]
    rfl

end MethodDef.Patched

namespace Module

/-- What passes may make of a module. -/
structure Patched (m m' : Module) : Prop where
  name : m'.name = m.name
  types : m'.types = m.types
  fields : m'.fields = m.fields
  references : m.references.GrowsTo m'.references
  size : m'.methods.size = m.methods.size
  methods : ∀ (n : Nat) (method : MethodDef), m.methods[n]? = some method →
    ∃ method', m'.methods[n]? = some method' ∧ method.Patched m'.references method'

namespace Patched

variable {m m' m'' : Module}

theorem refl (m : Module) : Patched m m :=
  ⟨rfl, rfl, rfl, .refl m.references, rfl, fun _ method h => ⟨method, h, .refl _ method⟩⟩

theorem trans (h : Patched m m') (h' : Patched m' m'') : Patched m m'' := by
  refine ⟨h'.name.trans h.name, h'.types.trans h.types, h'.fields.trans h.fields,
    h.references.trans h'.references, h'.size.trans h.size, ?_⟩
  intro n method hn
  obtain ⟨method', hn', hp⟩ := h.methods n method hn
  obtain ⟨method'', hn'', hp'⟩ := h'.methods n method' hn'
  exact ⟨method'', hn'', hp.trans h'.references hp'⟩

theorem withReferences {references : ReferenceTable} (h : m.references.GrowsTo references) :
    Patched m { m with references } :=
  ⟨rfl, rfl, rfl, h, rfl, fun _ method hn => ⟨method, hn, .refl _ method⟩⟩

end Patched

/-! ## Editing one method -/

theorem commit_eq {m : Module} {t : Token} {method method' : MethodDef} {d : Draft Unit} {n : Nat}
    (hindex : t.indexIn? .methodDef = some n)
    (hmethod' : method' = { method with body := some d.body }) :
    m.commit t method d = { m with
      methods := m.methods.setIfInBounds n method'
      references := d.references } := by
  unfold commit setMethod
  simp only [hindex, hmethod']

theorem methodDef?_commit {m : Module} {t : Token} {method : MethodDef} {d : Draft Unit}
    (ht : m.methodDef? t = some method) :
    (m.commit t method d).methodDef? t = some { method with body := some d.body } := by
  obtain ⟨n, hindex, hn⟩ := methodDef?_eq_some.mp ht
  have hlt : n < m.methods.size := (Array.getElem?_eq_some_iff.mp hn).1
  rw [commit_eq hindex rfl]
  exact methodDef?_eq_some.mpr ⟨n, hindex, Array.getElem?_setIfInBounds_self_of_lt hlt⟩

theorem patched_commit {m : Module} {t : Token} {method : MethodDef} {old : MethodBody}
    {d : Draft Unit} (ht : m.methodDef? t = some method) (hold : method.body = some old)
    (hrefs : m.references.GrowsTo d.references)
    (hbody : d.body = old ∨ d.body.IsVerified d.references method.signature.returnType) :
    Patched m (m.commit t method d) := by
  obtain ⟨n, hindex, hn⟩ := methodDef?_eq_some.mp ht
  have hlt : n < m.methods.size := (Array.getElem?_eq_some_iff.mp hn).1
  rw [commit_eq hindex rfl]
  refine ⟨rfl, rfl, rfl, hrefs, Array.size_setIfInBounds, ?_⟩
  intro k other hk
  by_cases hkn : n = k
  · subst hkn
    rw [hn] at hk
    cases hk
    refine ⟨{ method with body := some d.body }, Array.getElem?_setIfInBounds_self_of_lt hlt,
      rfl, rfl, rfl, rfl, rfl, ?_⟩
    rcases hbody with hbody | hverified
    · exact .inl (by rw [hold, hbody])
    · exact .inr ⟨old, d.body, hold, rfl, hverified⟩
  · exact ⟨other, by rw [Array.getElem?_setIfInBounds_ne hkn]; exact hk, .refl _ other⟩

theorem patched_editMethod {α : Type} {m : Module} {t : Token} {method : MethodDef} {absent : α}
    {edit : TypeSig → Edit (Draft Unit) α} (hedit : ∀ rt, Draft.Safe rt (edit rt))
    (ht : m.methodDef? t = some method) :
    Patched m ((editMethod t method absent edit).after m) := by
  unfold Edit.after editMethod
  cases hold : method.body with
  | none => exact .refl m
  | some old =>
    have hsafe := hedit method.signature.returnType ⟨old, m.references, ()⟩
    unfold Edit.after at hsafe
    simp only
    cases hresult : edit method.signature.returnType ⟨old, m.references, ()⟩ with
    | ok a d =>
      rw [hresult] at hsafe
      exact patched_commit ht hold hsafe.1 hsafe.2
    | error e d =>
      rw [hresult] at hsafe
      exact patched_commit ht hold hsafe.1 hsafe.2

theorem editMethod_eq_ok {α : Type} {m m' : Module} {t : Token} {method : MethodDef}
    {body : MethodBody} {absent a : α} {edit : TypeSig → Edit (Draft Unit) α}
    (hbody : method.body = some body) (h : editMethod t method absent edit m = .ok a m') :
    ∃ d, edit method.signature.returnType ⟨body, m.references, ()⟩ = .ok a d ∧
      m' = m.commit t method d := by
  unfold editMethod at h
  rw [hbody] at h
  simp only at h
  split at h
  · rename_i d hedit
    cases h
    exact ⟨d, hedit, rfl⟩
  · cases h

theorem methodAt_of_some {m : Module} {t : Token} {method : MethodDef}
    (ht : m.methodDef? t = some method) : methodAt t m = .ok method m := by
  unfold methodAt
  rw [ht]

theorem patched_of_editMethod {α : Type} {m m' : Module} {t : Token} {method : MethodDef}
    {absent a : α} {edit : TypeSig → Edit (Draft Unit) α} (hedit : ∀ rt, Draft.Safe rt (edit rt))
    (ht : m.methodDef? t = some method) (h : editMethod t method absent edit m = .ok a m') :
    Patched m m' := Edit.after_ok h ▸ patched_editMethod hedit ht

/-- An edit of a module that, whatever comes of it, only patches it. -/
abbrev Patches {α : Type} (edit : Edit Module α) : Prop := edit.Ensures Patched

theorem patches_methodAt {α : Type} {t : Token} {next : MethodDef → Edit Module α}
    (h : ∀ m method, m.methodDef? t = some method → Patched m ((next method).after m)) :
    Patches (methodAt t >>= next) := by
  intro m
  rw [Edit.after_bind]
  unfold methodAt
  cases ht : m.methodDef? t with
  | none => exact .refl m
  | some method => exact h m method ht

/-! ## One rule over many methods -/

/-- What the edit of each of some methods preserves, a sweep over them preserves, whatever comes
of it. -/
theorem sweepMethods_preserves {P : Module → Prop} {rule : RewriteRule Unit} :
    ∀ {methods : List Token} {report : Report} {patched : List Token} {m : Module},
      (∀ t ∈ methods, ∀ m method, P m → m.methodDef? t = some method →
        P ((editMethod t method [] rule.rewrite).after m)) →
      P m → P ((sweepMethods rule methods report patched).after m)
  | [], _, _, _, _, hm => hm
  | t :: rest, report, patched, m, hedit, hm => by
    obtain ⟨hone, hrest⟩ := List.forall_mem_cons.mp hedit
    unfold Edit.after sweepMethods
    cases ht : m.methodDef? t with
    | none => exact sweepMethods_preserves hrest hm
    | some method =>
      have hafter := hone m method hm ht
      simp only
      cases hresult : editMethod t method [] rule.rewrite m with
      | ok offers m₁ =>
        rw [Edit.after_ok hresult] at hafter
        by_cases hpos : 0 < Offer.replacedCount offers
        · simp only [if_pos hpos]
          exact sweepMethods_preserves hrest hafter
        · simp only [if_neg hpos]
          exact sweepMethods_preserves hrest hafter
      | error e m₁ =>
        rw [Edit.after_error hresult] at hafter
        by_cases hscoped : e.isMethodScoped = true
        · simp only [if_pos hscoped]
          exact sweepMethods_preserves hrest hafter
        · simp only [if_neg hscoped]
          exact hafter

theorem patches_sweepMethods {rule : RewriteRule Unit} (h : rule.OnlyImports)
    (methods : List Token) (report : Report) (patched : List Token) :
    Patches (sweepMethods rule methods report patched) := fun m =>
  sweepMethods_preserves (fun _ _ _ _ hm ht => hm.trans (patched_editMethod h.safe_rewrite ht))
    (.refl m)

theorem after_sweep (rule : RewriteRule Unit) (methods : List Token) (m : Module) :
    (sweep rule methods).after m = (sweepMethods rule methods .nothing []).after m := by
  unfold Edit.after sweep
  cases sweepMethods rule methods .nothing [] m <;> rfl

theorem patches_sweep {rule : RewriteRule Unit} (h : rule.OnlyImports) (methods : List Token) :
    Patches (sweep rule methods) := fun m =>
  after_sweep rule methods m ▸ patches_sweepMethods h methods .nothing [] m

end Module

end CilWeave
