import CilWeave.Proofs.Pass.FieldAccess.Exclusion

/-
Runs with records and runs without.

A pass over the fields that looks through the module patches it alike whether or not it keeps a
record (`FieldAccess.sameOutcome_scanAndRecord`), and no other pass knows of records. So a run
with records comes out like one without as long as no pass finds a record to follow
(`Registry.sameOutcome_runEach`). A run that starts without a record may still come to one: all
passes over the fields of an assembly share one file, so the second one finds the record of the
first. Its report says then that a record was followed, which no run without records reports
(`Registry.scansOnly_of_runEach`).
-/

namespace CilWeave

variable {α : Type} {env : Environment} {s s' u u' : Session}

/-! ## Outcomes -/

/-- Two edits answer the same, or fail with the same error, and leave the same module. -/
inductive Session.SameOutcome (edit edit' : Edit Session α) (s u : Session) : Prop where
  | ok {a : α} {s' u' : Session} : edit s = .ok a s' → edit' u = .ok a u' →
      s'.module = u'.module → SameOutcome edit edit' s u
  | error {e : Error} {s' u' : Session} : edit s = .error e s' → edit' u = .error e u' →
      s'.module = u'.module → SameOutcome edit edit' s u

open Session (SameOutcome)

namespace Session

theorem SameOutcome.of_eq {edit edit' next next' : Edit Session α}
    (h : SameOutcome next next' s' u') (hs : edit s = next s') (hu : edit' u = next' u') :
    SameOutcome edit edit' s u := by
  cases h with
  | ok hnext hnext' hsame => exact .ok (hs.trans hnext) (hu.trans hnext') hsame
  | error hnext hnext' hsame => exact .error (hs.trans hnext) (hu.trans hnext') hsame

variable {edit : Edit Module α} {m : Module}

theorem onModule_of_ok {a : α} (h : edit s.module = .ok a m) :
    onModule edit s = .ok a { s with module := m } := Edit.within_of_ok h

theorem onModule_of_error {e : Error} (h : edit s.module = .error e m) :
    onModule edit s = .error e { s with module := m } := Edit.within_of_error h

theorem sameOutcome_onModule (edit : Edit Module α) (h : s.module = u.module) :
    SameOutcome (onModule edit) (onModule edit) s u := by
  cases hedit : edit s.module with
  | ok a m => exact .ok (onModule_of_ok hedit) (onModule_of_ok (h ▸ hedit)) rfl
  | error e m => exact .error (onModule_of_error hedit) (onModule_of_error (h ▸ hedit)) rfl

theorem files_of_onModule {a : α} (h : onModule edit s = .ok a s') : s'.files = s.files := by
  obtain ⟨m, -, rfl⟩ := Edit.within_eq_ok.mp h
  rfl

end Session

/-! ## Without records -/

/-- The same environment, but records are neither used nor written. -/
def Environment.withoutRecords (env : Environment) : Environment :=
  { env with settings := { env.settings with useRecords := false } }

theorem Environment.record?_withoutRecords (env : Environment) (files : FileTree)
    (pass assembly : String) : env.withoutRecords.record? files pass assembly = .ok none := rfl

theorem Module.fromRecord_sweepMethods {rule : RewriteRule Unit} : ∀ {methods : List Token}
    {report report' : Report} {patched patched' : List Token} {m m' : Module},
    sweepMethods rule methods report patched m = .ok (report', patched') m' →
    report'.fromRecord = report.fromRecord
  | [], _, _, _, _, _, _, h => by
    cases h
    rfl
  | t :: rest, report, report', patched, patched', m, m', h => by
    unfold sweepMethods at h
    split at h
    · exact fromRecord_sweepMethods h
    · split at h
      · simp only at h
        split at h
        · exact (fromRecord_sweepMethods h).trans rfl
        · exact (fromRecord_sweepMethods h).trans rfl
      · split at h
        · exact (fromRecord_sweepMethods h).trans rfl
        · cases h

namespace FieldAccess

variable {f : FieldAccess} {routing : FieldRouting} {report report' : Report} {m m' : Module}
  {location : Option (String × String)}

theorem scanAndRecord_of_ok {patched : List Token} (location : Option (String × String))
    (h : Module.sweep routing.rule ((f.candidates s.module).map (·.2)) s.module =
      .ok (report, patched) m) :
    ∃ files, f.scanAndRecord routing location s = .ok report ⟨m, files⟩ := by
  unfold scanAndRecord scan
  simp only [h]
  cases location with
  | none => exact ⟨_, rfl⟩
  | some location => exact ⟨_, rfl⟩

theorem scanAndRecord_of_error {e : Error} (location : Option (String × String))
    (h : Module.sweep routing.rule ((f.candidates s.module).map (·.2)) s.module = .error e m) :
    f.scanAndRecord routing location s = .error e { s with module := m } := by
  unfold scanAndRecord scan
  simp only [h]

/-- Whether and where a scan keeps its record makes no difference to the module. -/
theorem sameOutcome_scanAndRecord (f : FieldAccess) (routing : FieldRouting)
    (location location' : Option (String × String)) (h : s.module = u.module) :
    SameOutcome (f.scanAndRecord routing location) (f.scanAndRecord routing location') s u := by
  cases hsweep : Module.sweep routing.rule ((f.candidates s.module).map (·.2)) s.module with
  | ok result m =>
    obtain ⟨report, patched⟩ := result
    obtain ⟨files, hs⟩ := scanAndRecord_of_ok location hsweep
    rw [h] at hsweep
    obtain ⟨files', hu⟩ := scanAndRecord_of_ok location' hsweep
    exact .ok hs hu rfl
  | error e m =>
    have hs := scanAndRecord_of_error location hsweep
    rw [h] at hsweep
    exact .error hs (scanAndRecord_of_error location' hsweep) rfl

theorem fromRecord_scanAndRecord (h : f.scanAndRecord routing location s = .ok report s') :
    report.fromRecord = false := by
  cases hsweep : Module.sweep routing.rule ((f.candidates s.module).map (·.2)) s.module with
  | ok result m =>
    obtain ⟨report', patched⟩ := result
    obtain ⟨files, hs⟩ := scanAndRecord_of_ok location hsweep
    rw [h] at hs
    cases hs
    unfold Module.sweep at hsweep
    split at hsweep
    · rename_i hmethods
      cases hsweep
      exact Module.fromRecord_sweepMethods hmethods
    · cases hsweep
  | error e m =>
    rw [scanAndRecord_of_error location hsweep] at h
    cases h

/-- To replay more methods does not change that a record was followed. -/
theorem fromRecord_replayAll : ∀ {pairs : List (String × String)} {report report' : Report}
    {m m' : Module}, replayAll routing pairs report m = .ok report' m' →
    report'.fromRecord = report.fromRecord
  | [], _, _, _, _, h => by
    cases h
    rfl
  | (typeName, methodName) :: rest, report, report', m, m', h => by
    unfold replayAll at h
    split at h
    · cases h
    · exact (fromRecord_replayAll h).trans rfl

theorem run_withoutRecords (f : FieldAccess) (env : Environment) (s : Session) :
    f.run env.withoutRecords s =
      match FieldRouting.ofModule f s.module env.helpers with
      | .error e => .error e s
      | .ok routing => f.scanAndRecord routing none s := by
  rw [run_eq, Environment.record?_withoutRecords]
  rfl

/-- If a pass reports the same with records and without, it found no record to follow. -/
theorem record?_of_run_eq_ok (h : s.module = u.module)
    (hrouting : FieldRouting.ofModule f s.module env.helpers = .ok routing)
    (hs : f.run env s = .ok report s') (hu : f.run env.withoutRecords u = .ok report u') :
    env.record? s.files passName s.module.name = .ok none := by
  rw [run_withoutRecords, ← h, hrouting] at hu
  have hscan := fromRecord_scanAndRecord hu
  rw [run_eq, hrouting] at hs
  simp only at hs
  cases hrecord : env.record? s.files passName s.module.name with
  | error e =>
    rw [hrecord] at hs
    cases hs
  | ok record? =>
    cases record? with
    | none => rfl
    | some record =>
      rw [hrecord] at hs
      obtain ⟨m, hreplay, rfl⟩ := Edit.within_eq_ok.mp hs
      have hfollowed : report.fromRecord = true := fromRecord_replayAll hreplay
      rw [hscan] at hfollowed
      cases hfollowed

end FieldAccess

/-- A pass over the fields finds no record to follow, if it gets as far as that. -/
def Pass.Scans (pass : Pass) (env : Environment) (s : Session) : Prop :=
  ∀ f routing, pass = .fieldAccess f → FieldRouting.ofModule f s.module env.helpers = .ok routing →
    env.record? s.files FieldAccess.passName s.module.name = .ok none

namespace Pass

variable {pass : Pass}

theorem sameOutcome_run (hscans : pass.Scans env s) (h : s.module = u.module) :
    SameOutcome (pass.run env) (pass.run env.withoutRecords) s u := by
  cases pass with
  | callRedirection redirection => exact Session.sameOutcome_onModule _ h
  | accessorForwarding forwarding => exact Session.sameOutcome_onModule _ h
  | typeLookupGuard guard => exact Session.sameOutcome_onModule _ h
  | reflectiveGetter => exact Session.sameOutcome_onModule _ h
  | fieldAccess f =>
    have hrun : Pass.run (.fieldAccess f) env s = _ := f.run_eq env s
    have hrun' : Pass.run (.fieldAccess f) env.withoutRecords u = _ := f.run_withoutRecords env u
    cases hrouting : FieldRouting.ofModule f s.module env.helpers with
    | error e =>
      rw [hrouting] at hrun
      rw [← h, hrouting] at hrun'
      exact .error hrun hrun' h
    | ok routing =>
      rw [hrouting, hscans f routing rfl hrouting] at hrun
      rw [← h, hrouting] at hrun'
      exact (f.sameOutcome_scanAndRecord routing _ none h).of_eq hrun hrun'

/-- Whether it is a pass over the fields, which is the one pass that keeps records. -/
def isFieldAccess : Pass → Bool
  | .fieldAccess _ => true
  | _ => false

theorem scans_of_not_isFieldAccess (h : pass.isFieldAccess = false) : pass.Scans env s := by
  rintro f routing rfl -
  cases h

/-- Another pass leaves the files and the name of the module, and so what record is found. -/
theorem record?_of_run {report : Report} (h : pass.isFieldAccess = false)
    (hrun : pass.run env s = .ok report s') :
    env.record? s'.files FieldAccess.passName s'.module.name =
      env.record? s.files FieldAccess.passName s.module.name := by
  have hname : s'.module.name = s.module.name := ((pass.patches_run env).of_ok hrun).name
  have hfiles : s'.files = s.files := by
    cases pass with
    | callRedirection redirection => exact Session.files_of_onModule hrun
    | accessorForwarding forwarding => exact Session.files_of_onModule hrun
    | typeLookupGuard guard => exact Session.files_of_onModule hrun
    | reflectiveGetter => exact Session.files_of_onModule hrun
    | fieldAccess f => cases h
  rw [hname, hfiles]

end Pass

/-! ## Runs -/

namespace Registry

variable {pass : Pass} {passes : List Pass} {done done' : List (String × Report)}
  {reports : List (String × Report)}

/-- No pass that is reached finds a record to follow. -/
def ScansOnly (env : Environment) : List Pass → Session → Prop
  | [], _ => True
  | pass :: rest, s =>
    pass.Scans env s ∧ ∀ report s', pass.run env s = .ok report s' → ScansOnly env rest s'

theorem runEach_of_ok {rest : List Pass} {report : Report} (h : pass.run env s = .ok report s') :
    runEach env (pass :: rest) done s = runEach env rest ((pass.name, report) :: done) s' := by
  rw [runEach, h]

theorem runEach_of_error {rest : List Pass} {e : Error} (h : pass.run env s = .error e s') :
    runEach env (pass :: rest) done s = .error e s' := by
  rw [runEach, h]

/-- As long as no pass finds a record, passes come out as without records. -/
theorem sameOutcome_runEach : ∀ {passes : List Pass} {done : List (String × Report)}
    {s u : Session}, ScansOnly env passes s → s.module = u.module →
    SameOutcome (runEach env passes done) (runEach env.withoutRecords passes done) s u
  | [], _, _, _, _, h => .ok rfl rfl h
  | pass :: rest, done, s, u, hscans, h => by
    cases Pass.sameOutcome_run hscans.1 h with
    | @ok report s' u' hs hu hsame =>
      exact (sameOutcome_runEach (hscans.2 report s' hs) hsame).of_eq (runEach_of_ok hs)
        (runEach_of_ok hu)
    | error hs hu hsame => exact .error (runEach_of_error hs) (runEach_of_error hu) hsame

/-- A run that succeeds puts its reports behind those there are. -/
theorem runEach_eq_ok : ∀ {passes : List Pass} {done : List (String × Report)} {s : Session},
    runEach env passes done s = .ok reports s' →
    ∃ later, reports = done.reverse ++ later
  | [], done, s, h => by
    cases h
    exact ⟨[], (List.append_nil _).symm⟩
  | pass :: rest, done, s, h => by
    cases hpass : pass.run env s with
    | error e s₁ =>
      rw [runEach_of_error hpass] at h
      cases h
    | ok report s₁ =>
      rw [runEach_of_ok hpass] at h
      obtain ⟨later, rfl⟩ := runEach_eq_ok h
      refine ⟨(pass.name, report) :: later, ?_⟩
      rw [List.reverse_cons, List.append_assoc]
      rfl

/-- If passes succeed with the same reports as without records, none of them found a record. -/
theorem scansOnly_of_runEach : ∀ {passes : List Pass} {done : List (String × Report)}
    {s u : Session}, s.module = u.module → runEach env passes done s = .ok reports s' →
    runEach env.withoutRecords passes done u = .ok reports u' → ScansOnly env passes s
  | [], _, _, _, _, _, _ => trivial
  | pass :: rest, done, s, u, h, hs, hu => by
    cases hpass : pass.run env s with
    | error e s₁ =>
      rw [runEach_of_error hpass] at hs
      cases hs
    | ok report s₁ =>
      cases hpass' : pass.run env.withoutRecords u with
      | error e u₁ =>
        rw [runEach_of_error hpass'] at hu
        cases hu
      | ok report' u₁ =>
        rw [runEach_of_ok hpass] at hs
        rw [runEach_of_ok hpass'] at hu
        -- The report of the first pass stands at the same place in both lists.
        have hreport : report' = report := by
          obtain ⟨later, hlater⟩ := runEach_eq_ok hs
          obtain ⟨later', hlater'⟩ := runEach_eq_ok hu
          rw [hlater, List.reverse_cons, List.reverse_cons, List.append_assoc, List.append_assoc,
            List.append_cancel_left_eq] at hlater'
          exact (congrArg Prod.snd (List.cons.inj hlater').1).symm
        subst hreport
        have hscans : pass.Scans env s := by
          rintro f routing rfl hrouting
          exact FieldAccess.record?_of_run_eq_ok h hrouting hpass hpass'
        refine ⟨hscans, fun report'' s₁' hpass'' => ?_⟩
        rw [hpass] at hpass''
        cases hpass''
        -- Both passes were the same up to here, so both go on with the same module.
        cases Pass.sameOutcome_run hscans h with
        | ok hok hok' hsame =>
          rw [hpass] at hok
          rw [hpass'] at hok'
          cases hok
          cases hok'
          exact scansOnly_of_runEach hsame hs hu
        | error herror _ _ =>
          rw [hpass] at herror
          cases herror

/-- Without a pass over the fields there is none to find a record. -/
theorem scansOnly_of_not_any : ∀ {passes : List Pass} {s : Session},
    (∀ pass ∈ passes, pass.isFieldAccess = false) → ScansOnly env passes s
  | [], _, _ => trivial
  | pass :: rest, s, h => by
    obtain ⟨hpass, hrest⟩ := List.forall_mem_cons.mp h
    exact ⟨Pass.scans_of_not_isFieldAccess hpass, fun _ _ _ => scansOnly_of_not_any hrest⟩

/-- If there is no record to begin with, a single pass over the fields finds none. -/
theorem scansOnly_of_countP_le_one : ∀ {passes : List Pass} {s : Session},
    passes.countP Pass.isFieldAccess ≤ 1 →
    env.record? s.files FieldAccess.passName s.module.name = .ok none → ScansOnly env passes s
  | [], _, _, _ => trivial
  | pass :: rest, s, hcount, hrecord => by
    rw [List.countP_cons] at hcount
    cases hfield : pass.isFieldAccess with
    | true =>
      rw [hfield, if_pos rfl] at hcount
      have hrest : ∀ other ∈ rest, other.isFieldAccess = false := fun other hother =>
        Bool.eq_false_iff.mpr (List.countP_eq_zero.mp (by omega) other hother)
      exact ⟨fun _ _ _ _ => hrecord, fun _ _ _ => scansOnly_of_not_any hrest⟩
    | false =>
      rw [hfield] at hcount
      refine ⟨Pass.scans_of_not_isFieldAccess hfield, fun report s' hrun => ?_⟩
      exact scansOnly_of_countP_le_one hcount ((Pass.record?_of_run hfield hrun).trans hrecord)

theorem run_of_error {r : Registry} {e : Error}
    (h : runEach env (r.passesFor s.module.fileName) [] s = .error e s') :
    r.run env s = .error e s' := by
  unfold run
  rw [h]

theorem run_of_ok {r : Registry}
    (h : runEach env (r.passesFor s.module.fileName) [] s = .ok reports s') :
    ∃ s'', r.run env s = .ok reports s'' ∧ s''.module = s'.module := by
  unfold run
  rw [h]
  refine ⟨_, rfl, ?_⟩
  split
  · exact module_dump env s'
  · rfl

theorem sameOutcome_run {r : Registry}
    (h : ScansOnly env (r.passesFor s.module.fileName) s) :
    SameOutcome (r.run env) (r.run env.withoutRecords) s s := by
  have hall : SameOutcome (runEach env (r.passesFor s.module.fileName) [])
      (runEach env.withoutRecords (r.passesFor s.module.fileName) []) s s :=
    sameOutcome_runEach h rfl
  cases hall with
  | ok hs hu hsame =>
    obtain ⟨s₁, hs₁, hmodule⟩ := run_of_ok hs
    obtain ⟨u₁, hu₁, hmodule'⟩ := run_of_ok hu
    exact .ok hs₁ hu₁ (hmodule.trans (hsame.trans hmodule'.symm))
  | error hs hu hsame => exact .error (run_of_error hs) (run_of_error hu) hsame

theorem runEach_of_run {r : Registry} (h : r.run env s = .ok reports s') :
    ∃ s'', runEach env (r.passesFor s.module.fileName) [] s = .ok reports s'' := by
  unfold run at h
  split at h
  · cases h
  · rename_i hruns
    cases h
    exact ⟨_, hruns⟩

/-- A module is patched for the first time, so there is no record for it. If at most one of its
passes goes over the fields, the run comes out as it would without records. If several do, a run
comes out as without records as long as none of them finds a record; and runs that succeed with
the same reports show that none did. -/
theorem transparent_of_no_record (r : Registry)
    (hfirst : env.record? s.files FieldAccess.passName s.module.name = .ok none) :
    ((r.passesFor s.module.fileName).countP Pass.isFieldAccess ≤ 1 →
      SameOutcome (r.run env) (r.run env.withoutRecords) s s) ∧
    (ScansOnly env (r.passesFor s.module.fileName) s →
      SameOutcome (r.run env) (r.run env.withoutRecords) s s) ∧
    (∀ reports s' u', r.run env s = .ok reports s' → r.run env.withoutRecords s = .ok reports u' →
      ScansOnly env (r.passesFor s.module.fileName) s) := by
  refine ⟨fun hcount => sameOutcome_run (scansOnly_of_countP_le_one hcount hfirst),
    sameOutcome_run, fun reports s' u' hs hu => ?_⟩
  obtain ⟨s₁, hs₁⟩ := runEach_of_run hs
  obtain ⟨u₁, hu₁⟩ := runEach_of_run hu
  exact scansOnly_of_runEach rfl hs₁ hu₁

/-! ## One pass over the fields, and two -/

open FieldAccess (recording firstSession resettable)

/-- One pass over the fields, behind a pass of another kind. -/
def oneTracked : Registry := .ofList [("Assembly-CSharp.dll", .accessorForwarding .standard),
  ("Assembly-CSharp.dll", .fieldAccess .standard)]

theorem transparent_oneTracked :
    (EStateM.run' (oneTracked.run recording) firstSession).isSome = true ∧
    SameOutcome (oneTracked.run recording) (oneTracked.run recording.withoutRecords)
      firstSession firstSession :=
  ⟨by decide +kernel,
    (transparent_of_no_record oneTracked (by decide +kernel)).1 (by decide +kernel)⟩

/-- A pass over the fields of saved games and one over those of scenes. -/
def twoTracked : Registry := .ofList [("Assembly-CSharp.dll", .fieldAccess .standard),
  ("Assembly-CSharp.dll", .fieldAccess (.tracking "SceneData"))]

/-- Saved games that can be reset, and scenes that nothing uses. -/
def withScenes : Session :=
  { firstSession with module := (resettable.addType "" "SceneData" .isPublic).2 }

/-- The pass over scenes finds the record of the pass over saved games, and fails to follow it. -/
theorem not_transparent_twoTracked :
    recording.record? withScenes.files FieldAccess.passName withScenes.module.name = .ok none ∧
    (∃ reports s', twoTracked.run recording.withoutRecords withScenes = .ok reports s') ∧
    ¬ SameOutcome (twoTracked.run recording) (twoTracked.run recording.withoutRecords)
      withScenes withScenes := by
  obtain ⟨reports, hwithout⟩ := Edit.eq_ok_of_isSome
    (show (EStateM.run' (twoTracked.run recording.withoutRecords) withScenes).isSome = true by
      decide +kernel)
  have hwith : EStateM.run' (twoTracked.run recording) withScenes = none := by decide +kernel
  refine ⟨by decide +kernel, ⟨reports, _, hwithout⟩, fun hsame => ?_⟩
  cases hsame with
  | ok hs hu _ =>
    unfold EStateM.run' EStateM.run at hwith
    rw [hs] at hwith
    cases hwith
  | error hs hu _ =>
    rw [hwithout] at hu
    cases hu

end Registry

end CilWeave
