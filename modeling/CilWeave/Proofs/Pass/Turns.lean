import CilWeave.Proofs.Pass.Sweep
import CilWeave.Proofs.Rewrite.Faults

/-
Every turn of a sweep.

A rule whose faults are confined never ends a sweep, so each of the methods has its turn, and in
its turn a method is still as it was at the start (`Module.exists_turns`). The counts of the
report are sums over the turns (`Module.Turns.Counted`).
-/

namespace CilWeave.Module

variable {R : ReferenceTable → ReferenceTable → Prop} {rule : RewriteRule Unit}
  {m m' m₁ : Module} {t : Token} {method : MethodDef} {result : Option (List Offer)}

/-- What was offered to the rule when the method of a token had its turn, or nothing if the
rewrite failed. References are at any time related to those at the start and at the end. -/
inductive Turn (R : ReferenceTable → ReferenceTable → Prop) (rule : RewriteRule Unit)
    (m m' : Module) (t : Token) : Option (List Offer) → Prop where
  | absent : m.methodDef? t = none → m'.methodDef? t = none → Turn R rule m m' t (some [])
  | bodiless {method : MethodDef} : m.methodDef? t = some method → method.body = none →
      m'.methodDef? t = some method → Turn R rule m m' t (some [])
  | edited {method : MethodDef} {b : MethodBody} {refs : ReferenceTable} {offers : List Offer}
      {d : Draft Unit} : m.methodDef? t = some method → method.body = some b →
      R m.references refs →
      rule.rewrite method.signature.returnType ⟨b, refs, ()⟩ = .ok offers d →
      R d.references m'.references →
      m'.methodDef? t = some { method with body := some d.body } →
      Turn R rule m m' t (some offers)
  | failed {method : MethodDef} {b : MethodBody} {refs : ReferenceTable} {e : Error}
      {d : Draft Unit} : m.methodDef? t = some method → method.body = some b →
      R m.references refs →
      rule.rewrite method.signature.returnType ⟨b, refs, ()⟩ = .error e d →
      R d.references m'.references → m'.methodDef? t = some method → Turn R rule m m' t none

/-- How many replacements there were in a turn. -/
def replacedIn (result : Option (List Offer)) : Nat := (result.map Offer.replacedCount).getD 0

/-- How much was declined in a turn. -/
def missedIn (result : Option (List Offer)) : Nat := (result.map Offer.missedCount).getD 0

/-! ## One turn -/

section

variable (hconfined : rule.Confined) (himports : rule.Imports R) (hrefl : ∀ refs, R refs refs)
  (htrans : ∀ {refs later last}, R refs later → R later last → R refs last)

include hconfined himports hrefl htrans

/-- The turn of a method by itself: what comes of it, and what it leaves alone. -/
theorem exists_turn (ht : m.methodDef? t = some method) :
    ∃ result m₁, Turn R rule m m₁ t result ∧
      (∀ t', t' ≠ t → m₁.methodDef? t' = m.methodDef? t') ∧
      R m.references m₁.references ∧
      ((∃ offers, result = some offers ∧
          m.editMethod t method [] rule.rewrite = .ok offers m₁) ∨
        ∃ e, result = none ∧ e.isMethodScoped = true ∧
          m.editMethod t method [] rule.rewrite = .error e m₁) := by
  cases hbody : method.body with
  | none =>
    refine ⟨some [], m, .bodiless ht hbody ht, fun _ _ => rfl, hrefl _, .inl ⟨[], rfl, ?_⟩⟩
    simp only [editMethod, hbody]
  | some b =>
    have hother : ∀ (d : Draft Unit) (t' : Token), t' ≠ t →
        (m.commit t method d).methodDef? t' = m.methodDef? t' :=
      fun d t' hne => methodDef?_commit_of_ne hne method d
    have hrewrite := himports.rewrite hrefl htrans method.signature.returnType
    cases hresult : rule.rewrite method.signature.returnType ⟨b, m.references, ()⟩ with
    | ok offers d =>
      refine ⟨some offers, m.commit t method d,
        .edited ht hbody (hrefl _) hresult (hrefl _) (methodDef?_commit ht), hother d,
        hrewrite.of_ok hresult, .inl ⟨offers, rfl, ?_⟩⟩
      simp only [editMethod, hbody, hresult]
    | error e d =>
      have hkept : (m.commit t method d).methodDef? t = some method := by
        rw [methodDef?_commit_of_kept ht hbody (Draft.body_of_transact_error hresult), ht]
      refine ⟨none, m.commit t method d,
        .failed ht hbody (hrefl _) hresult (hrefl _) hkept, hother d, hrewrite.of_error hresult,
        .inr ⟨e, rfl, hconfined.rewrite _ _ _ _ hresult, ?_⟩⟩
      simp only [editMethod, hbody, hresult]

omit hconfined himports hrefl in
theorem Turn.of_later (h : Turn R rule m₁ m' t result) (hrefs : R m.references m₁.references)
    (hsame : m₁.methodDef? t = m.methodDef? t) : Turn R rule m m' t result := by
  cases h with
  | absent ht ht' => exact .absent (hsame ▸ ht) ht'
  | bodiless ht hbody ht' => exact .bodiless (hsame ▸ ht) hbody ht'
  | edited ht hbody hbefore hrewrite hafter ht' =>
    exact .edited (hsame ▸ ht) hbody (htrans hrefs hbefore) hrewrite hafter ht'
  | failed ht hbody hbefore hrewrite hafter ht' =>
    exact .failed (hsame ▸ ht) hbody (htrans hrefs hbefore) hrewrite hafter ht'

omit hconfined himports hrefl in
theorem Turn.of_earlier (h : Turn R rule m m₁ t result) (hrefs : R m₁.references m'.references)
    (hsame : m'.methodDef? t = m₁.methodDef? t) : Turn R rule m m' t result := by
  cases h with
  | absent ht ht' => exact .absent ht (hsame.trans ht')
  | bodiless ht hbody ht' => exact .bodiless ht hbody (hsame.trans ht')
  | edited ht hbody hbefore hrewrite hafter ht' =>
    exact .edited ht hbody hbefore hrewrite (htrans hafter hrefs) (hsame.trans ht')
  | failed ht hbody hbefore hrewrite hafter ht' =>
    exact .failed ht hbody hbefore hrewrite (htrans hafter hrefs) (hsame.trans ht')

end

/-! ## All turns -/

/-- The turns of some methods, one after the other. -/
structure Turns (R : ReferenceTable → ReferenceTable → Prop) (rule : RewriteRule Unit)
    (m m' : Module) (methods : List Token) (turns : List (Token × Option (List Offer))) :
    Prop where
  tokens : turns.map Prod.fst = methods
  turn : ∀ u ∈ turns, Turn R rule m m' u.1 u.2
  kept : ∀ t, t ∉ methods → m'.methodDef? t = m.methodDef? t
  references : R m.references m'.references

/-- What a report counts, if it goes on from another one. -/
structure Counted (report report' : Report) (turns : List (Token × Option (List Offer))) :
    Prop where
  methodsPatched : report'.methodsPatched =
    report.methodsPatched + turns.countP fun u => 0 < replacedIn u.2
  replaced : report'.replaced = report.replaced + (turns.map fun u => replacedIn u.2).sum
  missed : report'.missed = report.missed + (turns.map fun u => missedIn u.2).sum
  failedMethods : report'.failedMethods = report.failedMethods + turns.countP (·.2.isNone)

/-- A turn in front of the others. -/
theorem Turns.cons {rest : List Token} {turns : List (Token × Option (List Offer))}
    (htrans : ∀ {refs later last}, R refs later → R later last → R refs last)
    (h : Turns R rule m₁ m' rest turns) (hfresh : t ∉ rest) (hturn : Turn R rule m m₁ t result)
    (hother : ∀ t', t' ≠ t → m₁.methodDef? t' = m.methodDef? t')
    (hrefs : R m.references m₁.references) :
    Turns R rule m m' (t :: rest) ((t, result) :: turns) := by
  refine ⟨by rw [List.map_cons, h.tokens], fun u hu => ?_, fun t' ht' => ?_,
    htrans hrefs h.references⟩
  · rcases List.mem_cons.mp hu with rfl | hu
    · exact hturn.of_earlier htrans h.references (h.kept _ hfresh)
    · have hne : u.1 ≠ t := fun heq =>
        hfresh (heq ▸ h.tokens ▸ List.mem_map_of_mem hu)
      exact (h.turn u hu).of_later htrans hrefs (hother u.1 hne)
  · rw [List.mem_cons, not_or] at ht'
    rw [h.kept t' ht'.2, hother t' ht'.1]

theorem Counted.cons {report report₁ report' : Report}
    {turns : List (Token × Option (List Offer))} (h : Counted report report₁ [(t, result)])
    (h' : Counted report₁ report' turns) : Counted report report' ((t, result) :: turns) := by
  refine ⟨?_, ?_, ?_, ?_⟩
  · rw [h'.methodsPatched, h.methodsPatched, List.countP_cons, List.countP_cons, List.countP_nil]
    omega
  · rw [h'.replaced, h.replaced]
    simp only [List.map_cons, List.sum_cons, List.map_nil, List.sum_nil]
    omega
  · rw [h'.missed, h.missed]
    simp only [List.map_cons, List.sum_cons, List.map_nil, List.sum_nil]
    omega
  · rw [h'.failedMethods, h.failedMethods, List.countP_cons, List.countP_cons, List.countP_nil]
    omega

end CilWeave.Module
