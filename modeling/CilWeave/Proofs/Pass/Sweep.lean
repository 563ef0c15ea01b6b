import Mathlib.Algebra.GroupWithZero.Nat
import CilWeave.Proofs.Pass.Patched

/-
What a sweep over methods does to each of them.

A method is edited by itself: what happens to it depends on its body and on the references
there are at the time, and no other method changes (`Module.Rewritten`). So the outcome of
a sweep is a list of the methods that were patched, each with the number of replacements in
it, and all other methods are as before (`Module.sweep_eq_ok`).
-/

namespace CilWeave

/-- What adds nothing to a sum may be left out. -/
theorem sum_map_filter {α : Type} {f : α → Nat} {p : α → Bool} : ∀ {l : List α},
    (∀ a ∈ l, p a = false → f a = 0) → ((l.filter p).map f).sum = (l.map f).sum
  | [], _ => rfl
  | a :: rest, h => by
    obtain ⟨hone, hrest⟩ := List.forall_mem_cons.mp h
    rw [List.filter_cons, List.map_cons, List.sum_cons, ← sum_map_filter hrest]
    cases hp : p a with
    | true => rfl
    | false => rw [hone hp, Nat.zero_add]; rfl

namespace Module

variable {m m' m₁ : Module} {t t' : Token} {method : MethodDef} {body : MethodBody}
  {rule : RewriteRule Unit} {offers : List Offer}

/-! ## Editing one method -/

theorem methodDef?_commit_of_ne (hne : t' ≠ t) (method : MethodDef) (d : Draft Unit) :
    (m.commit t method d).methodDef? t' = m.methodDef? t' := by
  cases hindex : t.indexIn? .methodDef with
  | none =>
    unfold commit setMethod methodDef?
    simp only [hindex]
  | some n =>
    rw [commit_eq hindex rfl]
    unfold methodDef?
    cases hindex' : t'.indexIn? .methodDef with
    | none => rfl
    | some k =>
      have hnk : n ≠ k := fun heq => hne (Token.indexIn?_inj hindex' (heq ▸ hindex))
      exact Array.getElem?_setIfInBounds_ne hnk

/-- A body that is as before leaves nothing but references. -/
theorem commit_of_kept {d : Draft Unit} (ht : m.methodDef? t = some method)
    (hbody : method.body = some d.body) :
    m.commit t method d = { m with references := d.references } := by
  obtain ⟨n, hindex, hn⟩ := methodDef?_eq_some.mp ht
  have hsame : { method with body := some d.body } = method := by rw [← hbody]
  have hkept : m.methods.setIfInBounds n method = m.methods := by
    refine Array.ext_getElem? fun k => ?_
    rw [Array.getElem?_setIfInBounds]
    split
    · rename_i hnk
      subst hnk
      rw [hn]
      exact if_pos (lt_size_of_getElem? hn)
    · rfl
  rw [commit_eq hindex rfl, hsame, hkept]

theorem methodDef?_commit_of_kept {d : Draft Unit} (ht : m.methodDef? t = some method)
    (hbody : method.body = some body) (hkept : d.body = body) (t' : Token) :
    (m.commit t method d).methodDef? t' = m.methodDef? t' := by
  rw [commit_of_kept ht (hbody.trans (congrArg some hkept.symm))]
  rfl

theorem any_replaced_iff : offers.any Offer.replaced = true ↔ 0 < Offer.replacedCount offers := by
  rw [List.any_eq_true]
  exact List.countP_pos_iff.symm

theorem methodDef?_of_nothing_replaced (ht : m.methodDef? t = some method)
    (h : m.editMethod t method [] rule.rewrite = .ok offers m₁)
    (hcount : ¬ 0 < Offer.replacedCount offers) (t' : Token) :
    m₁.methodDef? t' = m.methodDef? t' := by
  unfold editMethod at h
  split at h
  · cases h
    rfl
  · rename_i body hbody
    split at h
    · rename_i d hrewrite
      cases h
      refine methodDef?_commit_of_kept ht hbody (Draft.body_of_transact_ok hrewrite ?_) t'
      exact Bool.eq_false_iff.mpr fun hany => hcount (any_replaced_iff.mp hany)
    · cases h

theorem methodDef?_of_editMethod_error {e : Error} (ht : m.methodDef? t = some method)
    (h : m.editMethod t method [] rule.rewrite = .error e m₁) (t' : Token) :
    m₁.methodDef? t' = m.methodDef? t' := by
  unfold editMethod at h
  split at h
  · cases h
  · rename_i body hbody
    split at h
    · cases h
    · rename_i d hrewrite
      cases h
      exact methodDef?_commit_of_kept ht hbody (Draft.body_of_transact_error hrewrite) t'

theorem rewrite_of_editMethod (h : m.editMethod t method [] rule.rewrite = .ok offers m₁)
    (hcount : 0 < Offer.replacedCount offers) :
    ∃ body d, method.body = some body ∧
      rule.rewrite method.signature.returnType ⟨body, m.references, ()⟩ = .ok offers d ∧
      m₁ = m.commit t method d := by
  unfold editMethod at h
  split at h
  · cases h
    cases hcount
  · rename_i body hbody
    split at h
    · rename_i d hrewrite
      cases h
      exact ⟨body, d, hbody, hrewrite, rfl⟩
    · cases h

/-! ## Editing many methods -/

/-- The rule made `n` replacements in the method of `m` that a token names, with the references
there were at the time, and `m'` has the outcome. -/
inductive Rewritten (rule : RewriteRule Unit) (m m' : Module) (t : Token) : Nat → Prop where
  | intro {method : MethodDef} {body : MethodBody} {refs : ReferenceTable} {offers : List Offer}
      {d : Draft Unit} : m.methodDef? t = some method → method.body = some body →
      m.references.GrowsTo refs →
      rule.rewrite method.signature.returnType ⟨body, refs, ()⟩ = .ok offers d →
      0 < Offer.replacedCount offers → d.references.GrowsTo m'.references →
      m'.methodDef? t = some { method with body := some d.body } →
      Rewritten rule m m' t (Offer.replacedCount offers)

theorem Rewritten.of_later {n : Nat} (h : Rewritten rule m₁ m' t n)
    (hgrows : m.references.GrowsTo m₁.references)
    (hsame : m₁.methodDef? t = m.methodDef? t) : Rewritten rule m m' t n := by
  cases h with
  | intro ht hbody hrefs hrewrite hcount hlater hout =>
    exact .intro (hsame ▸ ht) hbody (hgrows.trans hrefs) hrewrite hcount hlater hout

/-- How a sweep over some methods came out: which methods were patched, with how many
replacements in each. -/
structure Swept (rule : RewriteRule Unit) (m m' : Module) (methods : List Token)
    (counts : List (Token × Nat)) : Prop where
  among : (counts.map Prod.fst).Sublist methods
  rewritten : ∀ c ∈ counts, Rewritten rule m m' c.1 c.2
  kept : ∀ t, t ∉ counts.map Prod.fst → m'.methodDef? t = m.methodDef? t

theorem Swept.skip {rest : List Token} {counts : List (Token × Nat)}
    (h : Swept rule m₁ m' rest counts) (hgrows : m.references.GrowsTo m₁.references)
    (hsame : ∀ t', m₁.methodDef? t' = m.methodDef? t') : Swept rule m m' (t :: rest) counts where
  among := h.among.cons t
  rewritten c hc := (h.rewritten c hc).of_later hgrows (hsame c.1)
  kept t' ht' := (h.kept t' ht').trans (hsame t')

/-- A method that is patched first is not edited again. -/
theorem Swept.cons {rest : List Token} {counts : List (Token × Nat)}
    (h : Swept rule m₁ m' rest counts) (hfresh : t ∉ rest) (ht : m.methodDef? t = some method)
    (hedit : m.editMethod t method [] rule.rewrite = .ok offers m₁)
    (hcount : 0 < Offer.replacedCount offers) (hgrows : m.references.GrowsTo m₁.references)
    (hlater : m₁.references.GrowsTo m'.references) :
    Swept rule m m' (t :: rest) ((t, Offer.replacedCount offers) :: counts) := by
  obtain ⟨body, d, hbody, hrewrite, rfl⟩ := rewrite_of_editMethod hedit hcount
  have hother : ∀ t', t' ≠ t → (m.commit t method d).methodDef? t' = m.methodDef? t' :=
    fun _ hne => methodDef?_commit_of_ne hne method d
  refine ⟨h.among.cons_cons t, fun c hc => ?_, fun t' ht' => ?_⟩
  · rcases List.mem_cons.mp hc with rfl | hc
    · refine .intro ht hbody (.refl _) hrewrite hcount hlater ?_
      rw [h.kept t fun hmem => hfresh (h.among.subset hmem), methodDef?_commit ht]
    · have hne : c.1 ≠ t := fun heq =>
        hfresh (heq ▸ h.among.subset (List.mem_map_of_mem hc))
      exact (h.rewritten c hc).of_later hgrows (hother c.1 hne)
  · rw [List.map_cons, List.mem_cons, not_or] at ht'
    rw [h.kept t' ht'.2, hother t' ht'.1]

/-- The methods come one after the other; of each one, what was patched and what was kept. -/
theorem sweepMethods_eq_ok (himports : rule.OnlyImports) : ∀ {methods patched patched' : List Token}
    {report report' : Report} {m m' : Module}, methods.Nodup →
    sweepMethods rule methods report patched m = .ok (report', patched') m' →
    ∃ counts, Swept rule m m' methods counts ∧
      patched' = (counts.map Prod.fst).reverse ++ patched ∧
      report'.methodsPatched = report.methodsPatched + counts.length ∧
      report'.replaced = report.replaced + (counts.map Prod.snd).sum
  | [], _, _, _, _, _, _, _, h => by
    cases h
    exact ⟨[], ⟨.refl _, by simp, fun _ _ => rfl⟩, rfl, rfl, rfl⟩
  | t :: rest, patched, patched', report, report', m, m', hnodup, h => by
    obtain ⟨hfresh, hrest⟩ := List.nodup_cons.mp hnodup
    unfold sweepMethods at h
    split at h
    · obtain ⟨counts, hswept, hresult⟩ := sweepMethods_eq_ok himports hrest h
      exact ⟨counts, hswept.skip (.refl _) fun _ => rfl, hresult⟩
    · rename_i method ht
      have hpatches : Patched m ((editMethod t method [] rule.rewrite).after m) :=
        patched_editMethod himports.safe_rewrite ht
      split at h
      · rename_i offers m₁ hedit
        rw [Edit.after_ok hedit] at hpatches
        simp only at h
        split at h
        · rename_i hcount
          obtain ⟨counts, hswept, hpatched, hmethods, hreplaced⟩ :=
            sweepMethods_eq_ok himports hrest h
          have hlater := ((patches_sweepMethods himports _ _ _).of_ok h).references
          refine ⟨(t, Offer.replacedCount offers) :: counts,
            hswept.cons hfresh ht hedit hcount hpatches.references hlater, ?_, ?_, ?_⟩
          · rw [hpatched]; simp
          · rw [hmethods, List.length_cons]
            simp only
            omega
          · rw [hreplaced, List.map_cons, List.sum_cons]
            simp only
            omega
        · rename_i hcount
          obtain ⟨counts, hswept, hpatched, hmethods, hreplaced⟩ :=
            sweepMethods_eq_ok himports hrest h
          refine ⟨counts, hswept.skip hpatches.references
            (methodDef?_of_nothing_replaced ht hedit hcount), hpatched, hmethods, ?_⟩
          rw [hreplaced]
          simp only
          omega
      · rename_i e m₁ hedit
        rw [Edit.after_error hedit] at hpatches
        split at h
        · obtain ⟨counts, hswept, hresult⟩ := sweepMethods_eq_ok himports hrest h
          exact ⟨counts, hswept.skip hpatches.references
            (methodDef?_of_editMethod_error ht hedit), hresult⟩
        · cases h

/-- A sweep over different methods patches some of them, each by itself. -/
theorem sweep_eq_ok (himports : rule.OnlyImports) {methods patched : List Token} {report : Report}
    (hnodup : methods.Nodup) (h : sweep rule methods m = .ok (report, patched) m') :
    ∃ counts, Swept rule m m' methods counts ∧ patched = counts.map Prod.fst ∧
      report.methodsPatched = counts.length ∧ report.replaced = (counts.map Prod.snd).sum := by
  unfold sweep at h
  split at h
  · rename_i hsweep
    cases h
    obtain ⟨counts, hswept, hpatched, hmethods, hreplaced⟩ :=
      sweepMethods_eq_ok himports hnodup hsweep
    refine ⟨counts, hswept, ?_, ?_, ?_⟩
    · rw [hpatched]; simp
    · rw [hmethods]; exact Nat.zero_add _
    · rw [hreplaced]; exact Nat.zero_add _
  · cases h

end Module

end CilWeave
