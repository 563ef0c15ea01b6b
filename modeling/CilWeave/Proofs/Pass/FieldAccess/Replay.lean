import CilWeave.Proofs.Module.Alike
import CilWeave.Proofs.Pass.FieldAccess.Portable
import CilWeave.Proofs.Pass.FieldAccess.Recording
import CilWeave.Proofs.Pass.FieldAccess.Routes
import CilWeave.Proofs.Pass.Sweep

/-
Replaying the record of a scan.

A scan goes through the methods in the order of their types, a replay in the order of their
names. Each method is rewritten by itself, and the rewrite of a body is the same but for the
numbers of references whatever was imported before, so the order does not matter
(`replayAll_of_rewritten`). What matters is that a recorded name leads back to the method it
was recorded for: replaying reproduces the scan exactly if names identify the methods that
were changed (`replay_reproduces_iff`). Names need not do that, since the full name of a
method says nothing about its type parameters (`not_reproduces_overloads`). That no token
dangles is needed as well (`not_reproduces_dangling`).
-/

namespace CilWeave.FieldAccess

open CilWeave.Module (Rewritten)

variable {f : FieldAccess} {routing : FieldRouting} {m m' m₁ m₂ : Module} {t : Token} {n : Nat}
  {typeName methodName : String} {counts : List (Token × Nat)}

/-! ## One method -/

/-- A method that the scan patched is patched again, and comes out as it did. -/
theorem replayMethod_of_rewritten (hsettled : m.Settled) (hfits : m'.references.FitsTokens)
    (h : Rewritten routing.rule m m' t n) (hpatched : m.Patched m₁)
    (hwithin : m'.references.Within m₁.references) (hsame : m₁.methodDef? t = m.methodDef? t)
    (hname : recordedMethod? m typeName methodName = some t) :
    ∃ offers m₂, replayMethod routing typeName methodName m₁ = .ok offers m₂ ∧
      Offer.replacedCount offers = n ∧ m₁.Patched m₂ ∧ m'.references.Within m₂.references ∧
      m'.AlikeAt m₂ t ∧ ∀ t', t' ≠ t → m₂.methodDef? t' = m₁.methodDef? t' := by
  cases h with
  | @intro method body refs offers d ht hbody hrefs hrewrite hcount hlater hout =>
    have hrule := routing.portable_rule hfits
    have hdrafts : Draft.Alike m'.references ⟨body, refs, ()⟩ ⟨body, m₁.references, ()⟩ :=
      ⟨(hsettled.body ht hbody).alike hrefs hpatched.references, rfl, hwithin⟩
    obtain ⟨d', hrewrite', halike⟩ :=
      hrule.rewrite method.signature.returnType hdrafts hrewrite hlater
    have ht₁ : m₁.methodDef? t = some method := hsame.trans ht
    have hedit : m₁.editMethod t method [] routing.rule.rewrite =
        .ok offers (m₁.commit t method d') := by
      unfold Module.editMethod
      rw [hbody]
      simp only [hrewrite']
    have hpatches := Module.patched_of_editMethod hrule.imports.safe_rewrite ht₁ hedit
    refine ⟨offers, m₁.commit t method d', ?_, rfl, hpatches, halike.within, ?_, fun t' hne =>
      Module.methodDef?_commit_of_ne hne method d'⟩
    · unfold replayMethod
      rw [recordedMethod?_of_patched hpatched, hname]
      simp only [Option.bind_some, ht₁, Option.map_some, hedit, if_pos hcount]
    · unfold Module.AlikeAt
      rw [hout, Module.methodDef?_commit ht₁]
      exact .some (method.alike_withBody (halike.body.mono hlater (.refl _)))

/-! ## All methods -/

/-- How the replay of some methods came out, as compared to the scan that led to `m'`. -/
structure Replayed (m' m₁ m₂ : Module) (methods : List Token) : Prop where
  patched : m₁.Patched m₂
  alike : ∀ t ∈ methods, m'.AlikeAt m₂ t
  kept : ∀ t, t ∉ methods → m₂.methodDef? t = m₁.methodDef? t

/-- The patched methods are patched again, in whatever order they come. -/
theorem replayAll_of_rewritten (hsettled : m.Settled) (hfits : m'.references.FitsTokens)
    {names : Token → String × String} : ∀ {counts : List (Token × Nat)} {report : Report}
    {m₁ : Module}, (counts.map Prod.fst).Nodup →
    (∀ c ∈ counts, Rewritten routing.rule m m' c.1 c.2) →
    (∀ c ∈ counts, recordedMethod? m (names c.1).1 (names c.1).2 = some c.1) →
    (∀ c ∈ counts, m₁.methodDef? c.1 = m.methodDef? c.1) →
    m.Patched m₁ → m'.references.Within m₁.references →
    ∃ report' m₂, replayAll routing (counts.map fun c => names c.1) report m₁ = .ok report' m₂ ∧
      report'.methodsPatched = report.methodsPatched + counts.length ∧
      report'.replaced = report.replaced + (counts.map Prod.snd).sum ∧
      Replayed m' m₁ m₂ (counts.map Prod.fst)
  | [], report, m₁, _, _, _, _, _, _ =>
    ⟨report, m₁, rfl, rfl, rfl, .refl m₁, by simp, fun _ _ => rfl⟩
  | (t, n) :: rest, report, m₁, hnodup, hrewritten, hnames, hsame, hpatched, hwithin => by
    obtain ⟨hfresh, hnodup⟩ : t ∉ rest.map Prod.fst ∧ (rest.map Prod.fst).Nodup :=
      List.nodup_cons.mp hnodup
    obtain ⟨offers, m₂, hmethod, hcount, hpatched₂, hwithin₂, halike, hkept⟩ :=
      replayMethod_of_rewritten hsettled hfits (hrewritten _ List.mem_cons_self) hpatched hwithin
        (hsame _ List.mem_cons_self) (hnames _ List.mem_cons_self)
    have hsame₂ : ∀ c ∈ rest, m₂.methodDef? c.1 = m.methodDef? c.1 := by
      intro c hc
      have hne : c.1 ≠ t := by
        rintro rfl
        exact hfresh (List.mem_map_of_mem hc)
      rw [hkept c.1 hne, hsame c (List.mem_cons_of_mem _ hc)]
    obtain ⟨report', m₃, hrest, hmethods, hreplaced, hreplayed⟩ :=
      replayAll_of_rewritten hsettled hfits hnodup
        (fun c hc => hrewritten c (List.mem_cons_of_mem _ hc))
        (fun c hc => hnames c (List.mem_cons_of_mem _ hc)) hsame₂ (hpatched.trans hpatched₂)
        hwithin₂
    refine ⟨report', m₃, ?_, ?_, ?_, hpatched₂.trans hreplayed.patched, ?_, ?_⟩
    · rw [List.map_cons]
      unfold replayAll
      simp only [hmethod]
      exact hrest
    · rw [hmethods, List.length_cons]
      unfold Report.patched
      simp only
      omega
    · rw [hreplaced, List.map_cons, List.sum_cons, hcount]
      unfold Report.patched
      simp only
      omega
    · intro t' ht'
      rcases List.mem_cons.mp ht' with rfl | ht'
      · exact halike.of_kept (hreplayed.kept _ hfresh) hreplayed.patched.references
      · exact hreplayed.alike t' ht'
    · intro t' ht'
      rw [List.map_cons, List.mem_cons, not_or] at ht'
      rw [hreplayed.kept t' ht'.2, hkept t' ht'.1]

theorem replayMethod_eq_ok {offers : List Offer} (hpatched : m.Patched m₁)
    (h : replayMethod routing typeName methodName m₁ = .ok offers m₂) :
    ∃ t method, recordedMethod? m typeName methodName = some t ∧
      m₁.methodDef? t = some method ∧
      m₁.editMethod t method [] routing.rule.rewrite = .ok offers m₂ ∧
      0 < Offer.replacedCount offers := by
  unfold replayMethod at h
  rw [recordedMethod?_of_patched hpatched] at h
  split at h
  · cases h
  · rename_i t method hfound
    obtain ⟨t', hname, hmethod⟩ := Option.bind_eq_some_iff.mp hfound
    obtain ⟨method', hmethod', heq⟩ := Option.map_eq_some_iff.mp hmethod
    cases heq
    split at h
    · cases h
    · rename_i hedit
      split at h
      · rename_i hcount
        cases h
        exact ⟨t, method, hname, hmethod', hedit, hcount⟩
      · cases h

/-- A replay that succeeds patches what is found under each of the names. -/
theorem replayAll_eq_ok (himports : routing.rule.OnlyImports) (hm : m.Linked)
    (hfits : m.FitsTokens) : ∀ {pairs : List (String × String)} {report report' : Report}
    {m₁ m₂ : Module}, pairs.Nodup → m.Patched m₁ →
    replayAll routing pairs report m₁ = .ok report' m₂ →
    ∃ counts, (∀ p ∈ pairs, ∃ c ∈ counts, recordedMethod? m p.1 p.2 = some c.1) ∧
      (∀ c ∈ counts, ∃ p ∈ pairs, recordedMethod? m p.1 p.2 = some c.1) ∧
      m₁.Patched m₂ ∧ Module.Swept routing.rule m₁ m₂ (counts.map Prod.fst) counts ∧
      report'.methodsPatched = report.methodsPatched + pairs.length
  | [], _, _, m₁, _, _, _, h => by
    cases h
    exact ⟨[], by simp, by simp, .refl m₁, ⟨.refl _, by simp, fun _ _ => rfl⟩, rfl⟩
  | (typeName, methodName) :: rest, report, report', m₁, m₂, hnodup, hpatched, h => by
    obtain ⟨hfresh, hnodup⟩ := List.nodup_cons.mp hnodup
    unfold replayAll at h
    split at h
    · cases h
    · rename_i offers m₀ hmethod
      obtain ⟨t, method, hname, ht, hedit, hcount⟩ := replayMethod_eq_ok hpatched hmethod
      have hpatches := Module.patched_of_editMethod himports.safe_rewrite ht hedit
      obtain ⟨counts, hfound, hcounted, hpatched', hswept, hmethods⟩ :=
        replayAll_eq_ok himports hm hfits hnodup (hpatched.trans hpatches) h
      -- No two names lead to one method.
      have hother : t ∉ counts.map Prod.fst := by
        intro hmem
        obtain ⟨c, hc, rfl⟩ := List.mem_map.mp hmem
        obtain ⟨p, hp, hpname⟩ := hcounted c hc
        have heq : p = (typeName, methodName) := recordedMethod?_inj hm hfits hpname hname
        exact hfresh (heq ▸ hp)
      refine ⟨(t, Offer.replacedCount offers) :: counts, ?_, ?_, hpatches.trans hpatched',
        hswept.cons hother ht hedit hcount hpatches.references hpatched'.references, ?_⟩
      · intro p hp
        rcases List.mem_cons.mp hp with rfl | hp
        · exact ⟨_, List.mem_cons_self, hname⟩
        · obtain ⟨c, hc, hpname⟩ := hfound p hp
          exact ⟨c, List.mem_cons_of_mem _ hc, hpname⟩
      · intro c hc
        rcases List.mem_cons.mp hc with rfl | hc
        · exact ⟨_, List.mem_cons_self, hname⟩
        · obtain ⟨p, hp, hpname⟩ := hcounted c hc
          exact ⟨p, List.mem_cons_of_mem _ hp, hpname⟩
      · rw [hmethods, List.length_cons]
        unfold Report.patched
        simp only
        omega

/-! ## What was patched -/

theorem exists_op_ne_of_rewritten (h : Rewritten routing.rule m m' t n) :
    ∃ method body body' id i i', m.methodDef? t = some method ∧ method.body = some body ∧
      m'.methodDef? t = some { method with body := some body' } ∧
      body.code.get? id = some i ∧ body'.code.get? id = some i' ∧ i'.said.op ≠ i.said.op := by
  cases h with
  | @intro method body refs offers d ht hbody _ hrewrite hcount _ hout =>
    obtain ⟨expanded, visits, swept, hrewriting⟩ := RewriteRule.rewriting_of_ok hrewrite
    obtain ⟨id, i, i', hi, hi', hne⟩ := FieldRouting.exists_op_ne hrewriting hcount
    exact ⟨method, body, d.body, id, i, i', ht, hbody, hout, hi, hi', hne⟩

theorem changed_of_rewritten (h : Rewritten routing.rule m m' t n) :
    m'.methodDef? t ≠ m.methodDef? t := by
  obtain ⟨method, body, body', id, i, i', ht, hbody, ht', hi, hi', hne⟩ :=
    exists_op_ne_of_rewritten h
  intro heq
  have hsame := congrArg MethodDef.body (Option.some.inj (ht'.symm.trans (heq.trans ht)))
  rw [hbody] at hsame
  cases hsame
  rw [hi] at hi'
  cases hi'
  exact hne rfl

theorem not_alikeAt_of_rewritten (h : Rewritten routing.rule m m₂ t n)
    (hkept : m'.methodDef? t = m.methodDef? t) : ¬ m'.AlikeAt m₂ t := by
  obtain ⟨method, body, body', id, i, i', ht, hbody, ht', hi, hi', hne⟩ :=
    exists_op_ne_of_rewritten h
  intro halike
  unfold Module.AlikeAt at halike
  rw [hkept, ht, ht'] at halike
  cases halike with
  | some halike =>
    have hbodies := halike.body
    rw [hbody] at hbodies
    cases hbodies with
    | some hbodies =>
      obtain ⟨j, hj, hsame⟩ := hbodies.code.get? id i hi
      rw [hi'] at hj
      cases hj
      exact hne hsame.expanded.op

/-! ## Scans -/

/-- How a scan came out: which methods were patched, with how many replacements in each, and
what was recorded. -/
structure Scanned (f : FieldAccess) (routing : FieldRouting) (m m' : Module) (report : Report)
    (record : PatchRecord) (counts : List (Token × Nat)) : Prop where
  patched : m.Patched m'
  swept : Module.Swept routing.rule m m' ((f.candidates m).map Prod.snd) counts
  mem_pairs : ∀ {p}, p ∈ record.pairs ↔ ∃ c ∈ counts, recordedAs (f.candidates m) m c.1 = p
  nodup_pairs : record.pairs.Nodup
  methodsPatched : report.methodsPatched = counts.length
  replaced : report.replaced = (counts.map Prod.snd).sum

theorem sweep_of_scan {fingerprint : String} {report : Report} {record : PatchRecord}
    (h : f.scan routing fingerprint m = .ok (report, record) m') : ∃ patched,
      Module.sweep routing.rule ((f.candidates m).map Prod.snd) m = .ok (report, patched) m' ∧
      record = recordOf (f.candidates m) m' fingerprint patched := by
  unfold scan at h
  simp only at h
  split at h
  · cases h
  · rename_i report patched m₁ hsweep
    cases h
    exact ⟨patched, hsweep, rfl⟩

theorem patched_of_scan {fingerprint : String} {report : Report} {record : PatchRecord}
    (himports : routing.rule.OnlyImports)
    (h : f.scan routing fingerprint m = .ok (report, record) m') : m.Patched m' := by
  obtain ⟨patched, hsweep, -⟩ := sweep_of_scan h
  exact (Module.patches_sweep himports _).of_ok hsweep

theorem scan_eq_ok {fingerprint : String} {report : Report} {record : PatchRecord}
    (himports : routing.rule.OnlyImports) (hm : m.Linked) (hfits : m.FitsTokens)
    (h : f.scan routing fingerprint m = .ok (report, record) m') :
    ∃ counts, Scanned f routing m m' report record counts := by
  have hpatched := patched_of_scan himports h
  obtain ⟨patched, hsweep, rfl⟩ := sweep_of_scan h
  have hnodup := nodup_candidates (f := f) hm hfits
  obtain ⟨counts, hswept, rfl, hmethods, hreplaced⟩ := Module.sweep_eq_ok himports hnodup hsweep
  have hrecord : recordOf (f.candidates m) m' fingerprint (counts.map Prod.fst) =
      (PatchRecord.empty fingerprint).addEach
        ((counts.map Prod.fst).map (recordedAs (f.candidates m) m)) := by
    rw [← funext (recordedAs_of_patched hpatched)]
    refine recordOf_eq hnodup fun t ht => ?_
    obtain ⟨⟨typeName, _⟩, howner, rfl⟩ := List.mem_map.mp (hswept.among.subset ht)
    obtain ⟨method, hmethod, -⟩ :=
      (owns_of_mem_candidates hm hfits howner).exists_methodDef? hm hfits
    exact ⟨⟨typeName, howner⟩, hpatched.exists_methodDef? hmethod⟩
  refine ⟨counts, hpatched, hswept, ?_, ?_, hmethods, hreplaced⟩
  · intro p
    rw [hrecord, PatchRecord.mem_pairs_addEach, List.map_map, List.mem_map]
    exact or_iff_left List.not_mem_nil
  · rw [hrecord]
    exact (PatchRecord.ordered_empty fingerprint).addEach.nodup_pairs

/-- Names identify the methods that changed: each of them is what is found under its name. -/
def NamesIdentify (f : FieldAccess) (m m' : Module) : Prop :=
  ∀ typeName t, (typeName, t) ∈ f.candidates m → m'.methodDef? t ≠ m.methodDef? t →
    recordedMethod? m typeName (m.describeMethod t) = some t

theorem namesIdentify_of_all (h : (f.candidates m).all fun (typeName, t) =>
    recordedMethod? m typeName (m.describeMethod t) == some t) : f.NamesIdentify m m' := by
  intro typeName t hcandidate _
  have hfound := List.all_eq_true.mp h (typeName, t) hcandidate
  simp only [beq_iff_eq] at hfound
  exact hfound

/-- To replay the record on the original succeeds, with the same numbers, and leaves the same
module but for the numbers of references. -/
def Reproduces (routing : FieldRouting) (record : PatchRecord) (report : Report)
    (m m' : Module) : Prop :=
  ∃ report' m'', replay routing record m = .ok report' m'' ∧
    report'.methodsPatched = report.methodsPatched ∧ report'.replaced = report.replaced ∧
    m'.Alike m''

namespace Scanned

variable {report : Report} {record : PatchRecord}
  (h : Scanned f routing m m' report record counts) (hm : m.Linked) (hfits : m.FitsTokens)

include h hm hfits

theorem nodup : (counts.map Prod.fst).Nodup :=
  (nodup_candidates hm hfits).sublist h.swept.among

omit hm hfits in
theorem exists_candidate (ht : t ∈ counts.map Prod.fst) :
    ∃ typeName, (typeName, t) ∈ f.candidates m := by
  obtain ⟨⟨typeName, _⟩, hcandidate, rfl⟩ := List.mem_map.mp (h.swept.among.subset ht)
  exact ⟨typeName, hcandidate⟩

theorem namesIdentify_iff : f.NamesIdentify m m' ↔ ∀ c ∈ counts,
    recordedMethod? m (recordedAs (f.candidates m) m c.1).1
      (recordedAs (f.candidates m) m c.1).2 = some c.1 := by
  have hnodup := nodup_candidates (f := f) hm hfits
  constructor
  · intro hnames c hc
    obtain ⟨typeName, hcandidate⟩ := h.exists_candidate (List.mem_map_of_mem hc)
    rw [recordedAs_eq hnodup hcandidate]
    exact hnames typeName c.1 hcandidate (changed_of_rewritten (h.swept.rewritten c hc))
  · intro hfound typeName t hcandidate hchanged
    have ht : t ∈ counts.map Prod.fst := by
      by_contra hnot
      exact hchanged (h.swept.kept t hnot)
    obtain ⟨c, hc, rfl⟩ := List.mem_map.mp ht
    have hc' := hfound c hc
    rwa [recordedAs_eq hnodup hcandidate] at hc'

/-- If every recorded name leads back, replaying reproduces the scan. -/
theorem reproduces (hsettled : m.Settled) (hlimit : m'.references.FitsTokens)
    (hfound : ∀ c ∈ counts, recordedMethod? m (recordedAs (f.candidates m) m c.1).1
      (recordedAs (f.candidates m) m c.1).2 = some c.1) :
    Reproduces routing record report m m' := by
  have hdistinct := h.nodup hm hfits
  have hnames : (counts.map fun c => recordedAs (f.candidates m) m c.1).Nodup := by
    refine List.Nodup.map_on (fun c hc c' hc' heq => ?_) (List.Nodup.of_map _ hdistinct)
    refine List.inj_on_of_nodup_map hdistinct hc hc' ?_
    have hback := hfound c' hc'
    rw [← heq, hfound c hc] at hback
    exact Option.some.inj hback
  have hpairs : record.pairs.Perm (counts.map fun c => recordedAs (f.candidates m) m c.1) := by
    refine (List.perm_ext_iff_of_nodup h.nodup_pairs hnames).mpr fun p => ?_
    rw [h.mem_pairs, List.mem_map]
  -- The record has the patched methods in the order of their names.
  obtain ⟨ordered, hordered, hperm⟩ :=
    (congrFun (congrFun (List.eq_map_comp_perm _) _) counts).mpr hpairs
  obtain ⟨report', m'', hreplay, hmethods, hreplaced, hreplayed⟩ :=
    replayAll_of_rewritten hsettled hlimit ((hperm.map _).nodup_iff.mpr hdistinct)
      (fun c hc => h.swept.rewritten c (hperm.mem_iff.mp hc))
      (fun c hc => hfound c (hperm.mem_iff.mp hc)) (fun _ _ => rfl)
      (.refl m) ⟨hm.references, h.patched.references.subset⟩
  refine ⟨report', m'', ?_, ?_, ?_, ?_⟩
  · unfold replay
    rw [hordered]
    exact hreplay
  · rw [hmethods, h.methodsPatched, hperm.length_eq]
    exact Nat.zero_add _
  · rw [hreplaced, h.replaced, (hperm.map _).sum_nat]
    exact Nat.zero_add _
  · refine h.patched.alike hreplayed.patched hfits.methods fun t => ?_
    by_cases ht : t ∈ ordered.map Prod.fst
    · exact hreplayed.alike t ht
    · have ht' : t ∉ counts.map Prod.fst := fun hmem => ht ((hperm.map _).mem_iff.mpr hmem)
      exact hsettled.alikeAt (h.swept.kept t ht') (hreplayed.kept t ht) h.patched.references
        hreplayed.patched.references

/-- If replaying reproduces the scan, every recorded name leads back. -/
theorem found_of_reproduces (himports : routing.rule.OnlyImports)
    (hreproduces : Reproduces routing record report m m') : ∀ c ∈ counts,
    recordedMethod? m (recordedAs (f.candidates m) m c.1).1
      (recordedAs (f.candidates m) m c.1).2 = some c.1 := by
  obtain ⟨report', m'', hreplay, hmethods, -, halike⟩ := hreproduces
  obtain ⟨replayed, hfound, hcounted, -, hswept, hcount⟩ :=
    replayAll_eq_ok himports hm hfits h.nodup_pairs (.refl m) hreplay
  -- What was replayed had been patched by the scan, since it is no longer as before.
  have hscanned : ∀ c ∈ replayed, c.1 ∈ counts.map Prod.fst := by
    intro c hc
    by_contra hnot
    exact not_alikeAt_of_rewritten (hswept.rewritten c hc) (h.swept.kept c.1 hnot)
      (halike.alikeAt c.1)
  -- As many names are recorded as methods were patched, so no two methods share a name.
  have hperm : record.pairs.Perm (counts.map fun c => recordedAs (f.candidates m) m c.1) := by
    refine (List.subperm_of_subset h.nodup_pairs fun p hp => ?_).perm_of_length_le ?_
    · exact List.mem_map.mpr (h.mem_pairs.mp hp)
    · rw [hmethods, h.methodsPatched] at hcount
      rw [List.length_map, hcount]
      exact Nat.le_of_eq (Nat.zero_add _)
  have hnames := hperm.nodup_iff.mp h.nodup_pairs
  intro c hc
  obtain ⟨c', hc', hname⟩ := hfound _ (h.mem_pairs.mpr ⟨c, hc, rfl⟩)
  obtain ⟨c'', hc'', heq⟩ := List.mem_map.mp (hscanned c' hc')
  obtain ⟨typeName, hcandidate⟩ := h.exists_candidate (List.mem_map_of_mem hc'')
  obtain ⟨howns, hdescribed⟩ := recordedMethod?_eq_some hm hfits hname
  rw [← heq] at howns hdescribed hname
  have hsame : recordedAs (f.candidates m) m c''.1 = recordedAs (f.candidates m) m c.1 := by
    rw [recordedAs_eq (nodup_candidates hm hfits) hcandidate,
      (owns_of_mem_candidates hm hfits hcandidate).unique hm hfits howns, hdescribed]
  rw [List.inj_on_of_nodup_map hnames hc'' hc hsame] at hname
  exact hname

end Scanned

/-- Replaying the record of a scan on the original module reproduces the scan if and only if
names identify the methods that the scan changed. The module was made with the `add` functions,
its tokens are settled, and the outcome has no more rows than tokens can tell apart. -/
theorem replay_reproduces_iff {fingerprint : String} {report : Report} {record : PatchRecord}
    (hm : m.Built) (hsettled : m.Settled) (hfits : m'.FitsTokens)
    (hscan : f.scan routing fingerprint m = .ok (report, record) m') :
    Reproduces routing record report m m' ↔ f.NamesIdentify m m' := by
  have himports := (routing.portable_rule hfits.references).imports
  have hpatched := patched_of_scan himports hscan
  have hfits₀ : m.FitsTokens := ⟨hpatched.types ▸ hfits.types, hpatched.size ▸ hfits.methods,
    hpatched.references.fitsTokens hfits.references⟩
  obtain ⟨counts, hscanned⟩ := scan_eq_ok himports hm.linked hfits₀ hscan
  rw [hscanned.namesIdentify_iff hm.linked hfits₀]
  exact ⟨hscanned.found_of_reproduces hm.linked hfits₀ himports,
    hscanned.reproduces hm.linked hfits₀ hsettled hfits.references⟩

/-! ## Names that identify, and names that do not -/

def savedScore : FieldRef := ⟨.ofClass "PlayerData", "score", .int32⟩

/-- A module that defines saved games with a score, and refers to the score. -/
def savedGames : Module :=
  let m := ((Module.empty "Assembly-CSharp").addType "" "PlayerData" .isPublic).2
  let m := (Module.addField ⟨0x02000001⟩ "score" .int32 ⟨0x6⟩ []).after m
  (m.importMember (.field savedScore)).2

theorem built_savedGames : savedGames.Built :=
  .importMember _ (.addedField (.addType _ _ _ (.empty _)))

/-- The module of the generic accessors. -/
def accessorHelpers : Resolver :=
  let m := ((Module.empty "TeamCherry.SharedUtils").addType "TeamCherry.SharedUtils"
    "VariableExtensions" .isPublic).2
  let m := (Module.addMethod ⟨0x02000001⟩ "GetVariable" ⟨0x16⟩
    ⟨false, .mvar 0, [.object, .string], 1⟩ none).after m
  let m := (Module.addMethod ⟨0x02000001⟩ "SetVariable" ⟨0x16⟩
    ⟨false, .void, [.object, .string, .mvar 0], 1⟩ none).after m
  ⟨[m]⟩

/-- The routing of the score through the generic accessors. -/
def savedRouting : FieldRouting where
  trackedType := "PlayerData"
  fields := ["score"]
  accessors := ⟨[], [],
    .plain (.ofClass "TeamCherry.SharedUtils.VariableExtensions") "GetVariable"
      ⟨false, .mvar 0, [.object, .string], 1⟩,
    .plain (.ofClass "TeamCherry.SharedUtils.VariableExtensions") "SetVariable"
      ⟨false, .void, [.object, .string, .mvar 0], 1⟩⟩

def bodyOf (code : List Instruction) : Option MethodBody := (MethodBody.ofList code).toOption

/-- Two types that do not stand in the order of their names. The method of the first one reads
the score, and the method of the second one has this code. -/
def visitorsWith (win : List Instruction) : Module :=
  let m := (savedGames.addType "Game" "Zoo" .isPublic).2
  let m := (Module.addMethod ⟨0x02000002⟩ "Look" ⟨0x16⟩
    ⟨false, .int32, [.ofClass "PlayerData"], 0⟩
    (bodyOf [.ldarg 0, .of .ldfld (.token ⟨0x0A000001⟩), .plain .ret])).after m
  let m := (m.addType "Game" "Arena" .isPublic).2
  (Module.addMethod ⟨0x02000003⟩ "Win" ⟨0x16⟩
    ⟨false, .void, [.ofClass "PlayerData", .int32], 0⟩ (bodyOf win)).after m

theorem built_visitorsWith (win : List Instruction) : (visitorsWith win).Built := by
  unfold visitorsWith
  exact .addedMethod (.addType _ _ _ (.addedMethod (.addType _ _ _ built_savedGames)))

/-- The method of the second type stores the score. -/
def visitors : Module :=
  visitorsWith [.ldarg 0, .ldarg 1, .of .stfld (.token ⟨0x0A000001⟩), .plain .ret]

/-- The scan patches `Look` before `Win`, the replay `Win` before `Look`. -/
theorem replay_reproduces_visitors : ∃ (record : PatchRecord) (m' : Module),
    scan .standard savedRouting "" visitors =
      .ok ({ Report.nothing with methodsPatched := 2, replaced := 2 }, record) m' ∧
    record.pairs =
      [("Game.Arena", "System.Void Game.Arena::Win(PlayerData,System.Int32)"),
        ("Game.Zoo", "System.Int32 Game.Zoo::Look(PlayerData)")] ∧
    Reproduces savedRouting record { Report.nothing with methodsPatched := 2, replaced := 2 }
      visitors m' := by
  have hrun : EStateM.run' (scan .standard savedRouting "") visitors =
      some ({ Report.nothing with methodsPatched := 2, replaced := 2 }, ⟨"",
        [("Game.Arena", ["System.Void Game.Arena::Win(PlayerData,System.Int32)"]),
          ("Game.Zoo", ["System.Int32 Game.Zoo::Look(PlayerData)"])]⟩) := by decide +kernel
  have hscan := Edit.eq_ok_of_run' hrun
  have hfits : ((scan .standard savedRouting "").after visitors).FitsTokens :=
    ⟨by decide +kernel, by decide +kernel, show ReferenceTable.size _ < _ by decide +kernel⟩
  have hsettled : visitors.Settled := Module.settled_of_resolved (by decide +kernel)
  have hnames : FieldAccess.standard.NamesIdentify visitors
      ((scan .standard savedRouting "").after visitors) :=
    namesIdentify_of_all (by decide +kernel)
  exact ⟨_, _, hscan, rfl,
    (replay_reproduces_iff (built_visitorsWith _) hsettled hfits hscan).mpr hnames⟩

/-- A type whose two methods differ in nothing but a type parameter; the first uses the score. -/
def overloads : Module :=
  let m := (savedGames.addType "Game" "User" .isPublic).2
  let m := (Module.addMethod ⟨0x02000002⟩ "Touch" ⟨0x16⟩
    ⟨false, .void, [.ofClass "PlayerData"], 0⟩
    (bodyOf [.ldarg 0, .of .ldfld (.token ⟨0x0A000001⟩), .plain .pop, .plain .ret])).after m
  (Module.addMethod ⟨0x02000002⟩ "Touch" ⟨0x16⟩
    ⟨false, .void, [.ofClass "PlayerData"], 1⟩ (bodyOf [.plain .ret])).after m

theorem built_overloads : overloads.Built := by
  unfold overloads
  exact .addedMethod (.addedMethod (.addType _ _ _ built_savedGames))

/-- The full name of a method does not tell a generic overload from one that is not generic,
so replaying the record of a scan can fail. -/
theorem not_reproduces_overloads : overloads.Built ∧ overloads.Settled ∧
    FieldRouting.ofModule .standard overloads accessorHelpers = .ok savedRouting ∧
    ∃ report record m', scan .standard savedRouting "" overloads = .ok (report, record) m' ∧
      m'.FitsTokens ∧ report.methodsPatched = 1 ∧
      ¬ Reproduces savedRouting record report overloads m' := by
  have hrun : EStateM.run' (scan .standard savedRouting "") overloads =
      some ({ Report.nothing with methodsPatched := 1, replaced := 1 }, ⟨"",
        [("Game.User", ["System.Void Game.User::Touch(PlayerData)"])]⟩) := by decide +kernel
  have hsettled : overloads.Settled := Module.settled_of_resolved (by decide +kernel)
  have hfits : ((scan .standard savedRouting "").after overloads).FitsTokens :=
    ⟨by decide +kernel, by decide +kernel, show ReferenceTable.size _ < _ by decide +kernel⟩
  refine ⟨built_overloads, hsettled, by decide +kernel, _, _, _, Edit.eq_ok_of_run' hrun, hfits,
    rfl, ?_⟩
  rintro ⟨report', m'', hreplay, -⟩
  -- The last method of the recorded name is the one that has nothing to replace.
  have hnone : EStateM.run' (replay savedRouting ⟨"",
      [("Game.User", ["System.Void Game.User::Touch(PlayerData)"])]⟩) overloads = none := by
    decide +kernel
  unfold EStateM.run' EStateM.run at hnone
  rw [hreplay] at hnone
  cases hnone

/-- The method of the second type stores the score too, and has the token of a row that is not
there yet. -/
def dangling : Module :=
  visitorsWith [.ldarg 0, .ldarg 1, .of .stfld (.token ⟨0x0A000001⟩),
    .of .ldtoken (.token ⟨0x2B000002⟩), .plain .pop, .plain .ret]

/-- What a dangling token comes to name depends on what is imported first, so replaying the
record of a scan can lead elsewhere although names identify the methods. -/
theorem not_reproduces_dangling : dangling.Built ∧ ∃ report record m',
    scan .standard savedRouting "" dangling = .ok (report, record) m' ∧ m'.FitsTokens ∧
      FieldAccess.standard.NamesIdentify dangling m' ∧
      ¬ Reproduces savedRouting record report dangling m' := by
  have hrun : EStateM.run' (scan .standard savedRouting "") dangling =
      some ({ Report.nothing with methodsPatched := 2, replaced := 2 }, ⟨"",
        [("Game.Arena", ["System.Void Game.Arena::Win(PlayerData,System.Int32)"]),
          ("Game.Zoo", ["System.Int32 Game.Zoo::Look(PlayerData)"])]⟩) := by decide +kernel
  have hfits : ((scan .standard savedRouting "").after dangling).FitsTokens :=
    ⟨by decide +kernel, by decide +kernel, show ReferenceTable.size _ < _ by decide +kernel⟩
  refine ⟨built_visitorsWith _, _, _, _, Edit.eq_ok_of_run' hrun, hfits,
    namesIdentify_of_all (by decide +kernel), ?_⟩
  -- The scan imports the getter first, and the replay the setter.
  rintro ⟨report', m'', hreplay, -, -, halike⟩
  have hmembers := (halike.alikeAt ⟨0x06000002⟩).membersAt_eq
  rw [← Edit.after_ok hreplay] at hmembers
  revert hmembers
  decide +kernel

end CilWeave.FieldAccess
