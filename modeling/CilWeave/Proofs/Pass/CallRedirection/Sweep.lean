import CilWeave.Proofs.Pass.CallRedirection.Rewriting
import CilWeave.Proofs.Pass.Sweep

/-
What a sweep of a redirection makes of a module.

No reference is imported on the way, so what becomes of a method depends on that method alone
(`Redirecting.outcome`), and the sweep never ends early. A token may come twice: the outcome of
a method is its own outcome (`Redirecting.outcome_outcome`), and it is refused, and has misses,
as before. So the methods and the counts of a sweep are those of the methods there were at the
start (`Redirecting.sweepMethods_eq`), and a sweep of outcomes changes nothing
(`Redirecting.sweepMethods_of_stable`).
-/

namespace CilWeave

namespace Redirecting

variable {q : Redirecting} {m m' m₁ : Module} {method : MethodDef} {b : MethodBody} {t : Token}

/-! ## One method -/

/-- What becomes of a method. -/
def outcome (q : Redirecting) (method : MethodDef) : MethodDef :=
  match method.body with
  | none => method
  | some b =>
    match q.attempt method.signature.returnType b with
    | .ok (b', _) => { method with body := some b' }
    | .error _ => method

/-- Whether the body of a method is refused. -/
def refuses (q : Redirecting) (method : MethodDef) : Bool :=
  match method.body with
  | none => false
  | some b =>
    match q.attempt method.signature.returnType b with
    | .ok _ => false
    | .error _ => true

/-- How many calls of a method are missed; those of a body that is refused do not count. -/
def missed (q : Redirecting) (method : MethodDef) : Nat :=
  match method.body with
  | none => 0
  | some b =>
    match q.attempt method.signature.returnType b with
    | .ok (_, offers) => Offer.missedCount offers
    | .error _ => 0

theorem outcome_of_none (hbody : method.body = none) : q.outcome method = method := by
  simp only [outcome, hbody]

theorem outcome_of_error {e : Error} (hbody : method.body = some b)
    (h : q.attempt method.signature.returnType b = .error e) : q.outcome method = method := by
  simp only [outcome, hbody, h]

theorem outcome_of_ok {b' : MethodBody} {offers : List Offer} (hbody : method.body = some b)
    (h : q.attempt method.signature.returnType b = .ok (b', offers)) :
    q.outcome method = { method with body := some b' } := by
  simp only [outcome, hbody, h]

/-- The outcome of a method is refused if the method is, and has its misses. -/
theorem outcome_outcome (q : Redirecting) (method : MethodDef) :
    q.outcome (q.outcome method) = q.outcome method ∧
      q.refuses (q.outcome method) = q.refuses method ∧
      q.missed (q.outcome method) = q.missed method := by
  cases hbody : method.body with
  | none =>
    rw [outcome_of_none hbody]
    exact ⟨outcome_of_none hbody, rfl, rfl⟩
  | some b =>
    cases hattempt : q.attempt method.signature.returnType b with
    | error e =>
      rw [outcome_of_error hbody hattempt]
      exact ⟨outcome_of_error hbody hattempt, rfl, rfl⟩
    | ok result =>
      obtain ⟨b', offers⟩ := result
      obtain ⟨offers', hagain, hmissed, -⟩ := attempt_again hattempt
      rw [outcome_of_ok hbody hattempt]
      refine ⟨outcome_of_ok rfl hagain, ?_, ?_⟩
      · simp only [refuses, hbody, hattempt, hagain]
      · simp only [missed, hbody, hattempt, hagain, hmissed]

theorem confined_attempt (q : Redirecting) (returnType : TypeSig) (b : MethodBody) :
    Confined (q.attempt returnType b) := by
  intro e h
  simp only [attempt] at h
  split at h
  · rename_i hexpand
    cases h
    exact MethodBody.confined_expand _ _ _ hexpand
  · split at h
    · split at h
      · rename_i hcompact
        cases h
        exact MethodBody.confined_compact _ _ _ hcompact
      · cases h
    · cases h

/-! ## One edit -/

theorem commit_eq_self {d : Draft Unit} (ht : m.methodDef? t = some method)
    (hbody : method.body = some d.body) (hrefs : d.references = m.references) :
    m.commit t method d = m := by
  rw [Module.commit_of_kept ht hbody, hrefs]

theorem methodDef?_eq_ite (ht : m.methodDef? t = some method) (t' : Token) :
    m.methodDef? t' = if t' = t then some method else m.methodDef? t' := by
  split
  · rename_i heq
    rw [heq, ht]
  · rfl

/-- Nothing is replaced in a method that is its own outcome, unless the replacement is a target. -/
theorem replacedCount_of_outcome {b b' : MethodBody} {offers : List Offer}
    (hbody : method.body = some b)
    (hattempt : q.attempt method.signature.returnType b = .ok (b', offers))
    (hself : q.outcome method = method) (htargets : q.pass.targets q.replacement = false) :
    Offer.replacedCount offers = 0 := by
  have hb' : b' = b := by
    have heq := congrArg MethodDef.body ((outcome_of_ok hbody hattempt).symm.trans hself)
    rw [hbody] at heq
    exact Option.some.inj heq
  subst hb'
  obtain ⟨offers', hagain, -, hnone⟩ := attempt_again hattempt
  rw [hattempt] at hagain
  cases hagain
  exact hnone htargets

/-- What one edit does: the method becomes its outcome, and nothing else changes. -/
theorem editMethod_cases (hrefs : m.references = q.refs) (ht : m.methodDef? t = some method) :
    ∃ m₁, m₁.references = q.refs ∧
      (∀ t', m₁.methodDef? t' = if t' = t then some (q.outcome method) else m.methodDef? t') ∧
      (q.outcome method = method → m₁ = m) ∧
      ((∃ e, m.editMethod t method [] q.rule.rewrite = .error e m₁ ∧ e.isMethodScoped = true ∧
          q.refuses method = true ∧ q.missed method = 0) ∨
        ∃ offers, m.editMethod t method [] q.rule.rewrite = .ok offers m₁ ∧
          q.refuses method = false ∧ Offer.missedCount offers = q.missed method ∧
          (q.outcome method = method → q.pass.targets q.replacement = false →
            Offer.replacedCount offers = 0)) := by
  cases hbody : method.body with
  | none =>
    refine ⟨m, hrefs, fun t' => ?_, fun _ => rfl, .inr ⟨[], ?_, ?_, ?_, fun _ _ => rfl⟩⟩
    · rw [outcome_of_none hbody]
      exact methodDef?_eq_ite ht t'
    · simp only [Module.editMethod, hbody]
    · simp only [refuses, hbody]
    · simp only [missed, hbody]
      rfl
  | some b =>
    cases hattempt : q.attempt method.signature.returnType b with
    | error e =>
      have hself := outcome_of_error hbody hattempt
      refine ⟨m, hrefs, fun t' => ?_, fun _ => rfl, .inl ⟨e, ?_, ?_, ?_, ?_⟩⟩
      · rw [hself]
        exact methodDef?_eq_ite ht t'
      · simp only [Module.editMethod, hbody, hrefs, rewrite_eq, hattempt]
        rw [commit_eq_self ht hbody hrefs.symm]
      · exact q.confined_attempt _ _ e hattempt
      · simp only [refuses, hbody, hattempt]
      · simp only [missed, hbody, hattempt]
    | ok result =>
      obtain ⟨b', offers⟩ := result
      have houtcome := outcome_of_ok hbody hattempt
      refine ⟨m.commit t method ⟨b', q.refs, ()⟩, ?_, fun t' => ?_, fun hself => ?_,
        .inr ⟨offers, ?_, ?_, ?_, replacedCount_of_outcome hbody hattempt⟩⟩
      · rfl
      · split
        · rename_i heq
          rw [heq, Module.methodDef?_commit ht, houtcome]
        · rename_i hne
          exact Module.methodDef?_commit_of_ne hne method _
      · refine commit_eq_self ht ?_ hrefs.symm
        rw [← hself, houtcome]
      · simp only [Module.editMethod, hbody, hrefs, rewrite_eq, hattempt]
      · simp only [refuses, hbody, hattempt]
      · simp only [missed, hbody, hattempt]

/-! ## Many edits -/

def refusesAt (q : Redirecting) (m : Module) (t : Token) : Bool := (m.methodDef? t).any q.refuses

/-- How many calls of the method of a token are missed. -/
def missedAt (q : Redirecting) (m : Module) (t : Token) : Nat :=
  ((m.methodDef? t).map q.missed).getD 0

/-- The methods of some tokens have become their outcomes. -/
structure Advanced (q : Redirecting) (m m' : Module) (done : List Token) : Prop where
  references : m'.references = q.refs
  methods : ∀ t, m'.methodDef? t =
    (m.methodDef? t).map fun method => if t ∈ done then q.outcome method else method

namespace Advanced

variable {done : List Token}

theorem start (hrefs : m.references = q.refs) : Advanced q m m [] := by
  refine ⟨hrefs, fun t => ?_⟩
  cases m.methodDef? t <;> rfl

theorem cases (h : Advanced q m m' done) (ht : m'.methodDef? t = some method) :
    ∃ old, m.methodDef? t = some old ∧ q.outcome method = q.outcome old ∧
      q.refuses method = q.refuses old ∧ q.missed method = q.missed old := by
  rw [h.methods] at ht
  obtain ⟨old, hold, rfl⟩ := Option.map_eq_some_iff.mp ht
  refine ⟨old, hold, ?_⟩
  split
  · exact q.outcome_outcome old
  · exact ⟨rfl, rfl, rfl⟩

/-- A method that is edited becomes the outcome of the one there was. -/
theorem cons (h : Advanced q m m' done) (hrefs : m₁.references = q.refs)
    (ht : m'.methodDef? t = some method)
    (hedit : ∀ t', m₁.methodDef? t' =
      if t' = t then some (q.outcome method) else m'.methodDef? t') :
    Advanced q m m₁ (t :: done) := by
  refine ⟨hrefs, fun t' => ?_⟩
  obtain ⟨old, hold, houtcome, -⟩ := h.cases ht
  rw [hedit, h.methods]
  by_cases heq : t' = t
  · subst heq
    rw [if_pos rfl, hold, Option.map_some, if_pos List.mem_cons_self, houtcome]
  · rw [if_neg heq]
    simp only [List.mem_cons, heq, false_or]

theorem skip (h : Advanced q m m' done) (ht : m'.methodDef? t = none) :
    Advanced q m m' (t :: done) := by
  refine ⟨h.references, fun t' => ?_⟩
  rw [h.methods]
  by_cases heq : t' = t
  · subst heq
    rw [h.methods, Option.map_eq_none_iff] at ht
    rw [ht]
    rfl
  · simp only [List.mem_cons, heq, false_or]

end Advanced

/-- The sweep goes through to the end. The methods become their outcomes, and the counts are
those of the methods there were. -/
theorem sweepMethods_eq : ∀ (methods : List Token) {done patched : List Token} {report : Report}
    {m' : Module}, Advanced q m m' done →
    ∃ report' patched' m₁, Module.sweepMethods q.rule methods report patched m' =
        .ok (report', patched') m₁ ∧ Advanced q m m₁ (methods.reverse ++ done) ∧
      report'.failedMethods = report.failedMethods + methods.countP (q.refusesAt m) ∧
      report'.missed = report.missed + (methods.map (q.missedAt m)).sum
  | [], done, patched, report, m', h => ⟨report, patched, m', rfl, h, rfl, rfl⟩
  | t :: rest, done, patched, report, m', h => by
    rw [Module.sweepMethods, List.reverse_cons, List.append_assoc, List.singleton_append,
      List.countP_cons, List.map_cons, List.sum_cons]
    cases ht : m'.methodDef? t with
    | none =>
      have hnone := ht
      rw [h.methods, Option.map_eq_none_iff] at hnone
      obtain ⟨report', patched', m₁, hsweep, hrest, hfailed, hmissed⟩ :=
        sweepMethods_eq rest (h.skip ht)
      refine ⟨report', patched', m₁, hsweep, hrest, ?_, ?_⟩
      · simp only [hfailed, refusesAt, hnone, Option.any_none, Bool.false_eq_true, if_false]
        rfl
      · simp only [hmissed, missedAt, hnone, Option.map_none, Option.getD_none]
        omega
    | some method =>
      obtain ⟨old, hold, -, hrefuses, hmisses⟩ := h.cases ht
      have hrefusesAt : q.refusesAt m t = q.refuses method := by
        simp only [refusesAt, hold, Option.any_some, hrefuses]
      have hmissedAt : q.missedAt m t = q.missed method := by
        simp only [missedAt, hold, Option.map_some, Option.getD_some, hmisses]
      obtain ⟨m₁, hrefs, hmethods, -, ⟨e, hedit, hscoped, hrefused, hnone⟩ |
        ⟨offers, hedit, hkept, hcount, -⟩⟩ := editMethod_cases h.references ht
      · have hnext := h.cons hrefs ht hmethods
        simp only [hedit, if_pos hscoped]
        obtain ⟨report', patched', m₂, hsweep, hrest, hfailed, hmissed⟩ :=
          sweepMethods_eq rest hnext
        refine ⟨report', patched', m₂, hsweep, hrest, ?_, ?_⟩
        · rw [hfailed, hrefusesAt, if_pos hrefused]
          simp only [Report.failed]
          omega
        · rw [hmissed, hmissedAt, hnone, Nat.zero_add]
          rfl
      · have hnext := h.cons hrefs ht hmethods
        have hnot : ¬ q.refuses method = true := by rw [hkept]; exact Bool.false_ne_true
        -- Whether the method counts as patched or not, the two counts are the same.
        have finish : ∀ (report₁ : Report) (patched₁ : List Token),
            report₁.failedMethods = report.failedMethods →
            report₁.missed = report.missed + Offer.missedCount offers →
            ∃ report' patched' m₂, Module.sweepMethods q.rule rest report₁ patched₁ m₁ =
                .ok (report', patched') m₂ ∧ Advanced q m m₂ (rest.reverse ++ t :: done) ∧
              report'.failedMethods = report.failedMethods +
                (rest.countP (q.refusesAt m) + if q.refusesAt m t = true then 1 else 0) ∧
              report'.missed =
                report.missed + (q.missedAt m t + (rest.map (q.missedAt m)).sum) := by
          intro report₁ patched₁ hfailed₁ hmissed₁
          obtain ⟨report', patched', m₂, hsweep, hrest, hfailed, hmissed⟩ :=
            sweepMethods_eq rest hnext
          refine ⟨report', patched', m₂, hsweep, hrest, ?_, ?_⟩
          · rw [hfailed, hfailed₁, hrefusesAt, if_neg hnot, Nat.add_zero]
          · rw [hmissed, hmissed₁, hmissedAt, hcount, Nat.add_assoc]
        simp only [hedit]
        split
        · exact finish _ _ rfl rfl
        · exact finish _ _ rfl rfl

/-- A sweep over methods that are their own outcomes changes nothing. -/
theorem sweepMethods_of_stable (hrefs : m.references = q.refs) :
    ∀ (methods : List Token) {patched : List Token} {report : Report},
    (∀ t ∈ methods, ∀ method, m.methodDef? t = some method → q.outcome method = method) →
    ∃ report' patched', Module.sweepMethods q.rule methods report patched m =
        .ok (report', patched') m ∧
      (q.pass.targets q.replacement = false → report'.replaced = report.replaced ∧
        report'.methodsPatched = report.methodsPatched)
  | [], patched, report, _ => ⟨report, patched, rfl, fun _ => ⟨rfl, rfl⟩⟩
  | t :: rest, patched, report, hstable => by
    have hrest := fun t ht => hstable t (List.mem_cons_of_mem _ ht)
    rw [Module.sweepMethods]
    cases ht : m.methodDef? t with
    | none => exact sweepMethods_of_stable hrefs rest hrest
    | some method =>
      have hself := hstable t List.mem_cons_self method ht
      obtain ⟨m₁, -, -, hsame, ⟨e, hedit, hscoped, -⟩ | ⟨offers, hedit, -, -, hnone⟩⟩ :=
        editMethod_cases hrefs ht
      · rw [hsame hself] at hedit
        simp only [hedit, if_pos hscoped]
        exact sweepMethods_of_stable hrefs rest hrest
      · rw [hsame hself] at hedit
        simp only [hedit]
        split
        · rename_i hpos
          obtain ⟨report', patched', hsweep, hcounts⟩ := sweepMethods_of_stable hrefs rest hrest
          refine ⟨report', patched', hsweep, fun htargets => ?_⟩
          rw [hnone hself htargets] at hpos
          cases hpos
        · obtain ⟨report', patched', hsweep, hcounts⟩ := sweepMethods_of_stable hrefs rest hrest
          refine ⟨report', patched', hsweep, fun htargets => ?_⟩
          obtain ⟨hreplaced, hmethods⟩ := hcounts htargets
          exact ⟨by rw [hreplaced, hnone hself htargets]; rfl, hmethods⟩

/-! ## The pass -/

/-- The replacement is the one that helper modules give to a module with these references. -/
def ImportedFrom (q : Redirecting) (helpers : Resolver) (references : ReferenceTable) : Prop :=
  helpers.importMethod q.pass.replacementModule q.pass.replacement references =
    .ok q.token q.refs

variable {helpers : Resolver} {r : CallRedirection} {report : Report}

/-- A pass that has its replacement goes through. The methods with a body become their
outcomes. -/
theorem run_of_import (himport : q.ImportedFrom helpers m.references) :
    ∃ report m', q.pass.run helpers m = .ok report m' ∧
      Advanced q m m' (CallRedirection.candidates m) ∧
      report.failedMethods = (CallRedirection.candidates m).countP (q.refusesAt m) ∧
      report.missed = ((CallRedirection.candidates m).map (q.missedAt m)).sum := by
  have hstart : Advanced q { m with references := q.refs } { m with references := q.refs } [] :=
    .start rfl
  obtain ⟨report, patched, m', hsweep, hadvanced, hfailed, hmissed⟩ :
      ∃ report patched m', Module.sweepMethods q.rule (CallRedirection.candidates m) .nothing []
        { m with references := q.refs } = .ok (report, patched) m' ∧ _ ∧ _ ∧ _ :=
    sweepMethods_eq (CallRedirection.candidates m) hstart
  refine ⟨report, m', ?_, ⟨hadvanced.references, fun t => ?_⟩, ?_, ?_⟩
  · rw [rule] at hsweep
    simp only [CallRedirection.run, show _ = _ from himport, q.named, Module.sweep, hsweep]
  · rw [hadvanced.methods]
    simp only [List.append_nil, List.mem_reverse]
    rfl
  · rw [hfailed, Report.nothing, Nat.zero_add]
    rfl
  · rw [hmissed, Report.nothing, Nat.zero_add]
    rfl

theorem exists_of_run (h : r.run helpers m = .ok report m') :
    ∃ q : Redirecting, q.pass = r ∧ q.ImportedFrom helpers m.references := by
  simp only [CallRedirection.run] at h
  split at h
  · cases h
  · rename_i token references himport
    split at h
    · cases h
    · rename_i replacement hnamed
      exact ⟨⟨r, references, token, replacement, hnamed⟩, rfl, himport⟩

end Redirecting

end CilWeave
