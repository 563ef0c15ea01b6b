import CilWeave.Proofs.Pass.FieldAccess.Building
import CilWeave.Proofs.Pass.Patched
import CilWeave.Run.Registry

/-
Every run of passes patches its module and does nothing else to it.

Each pass edits bodies by transactions alone and touches nothing else of the module but
its references. So each of them patches, in the sense of `Module.Patched`, whether it
succeeds or fails, and so does a run of any passes in any order
(`Registry.patched_run`). A pass over the fields may follow a record instead of looking through
the module; which of the two it does is said once (`FieldAccess.run_eq`).
-/

namespace CilWeave

open CilWeave.Module (Patched Patches)

theorem MethodQuery.resolve_eq_ok {q : MethodQuery} {m : Module} {found : MethodDef} :
    q.resolve m = .ok found ↔
      ∃ type, m.findType? q.typeName = some type ∧ q.candidates m type = [found] := by
  unfold resolve
  cases m.findType? q.typeName with
  | none => exact iff_of_false nofun nofun
  | some type =>
    simp only [Option.some.injEq, exists_eq_left']
    match q.candidates m type with
    | [] => exact iff_of_false nofun nofun
    | [only] => simp only [Except.ok.injEq, List.cons.injEq, and_true]
    | first :: second :: rest => exact iff_of_false nofun nofun

theorem MethodQuery.accepts_of_resolve {q : MethodQuery} {m : Module} {found : MethodDef}
    (h : q.resolve m = .ok found) : q.accepts found = true := by
  obtain ⟨type, -, hfound⟩ := resolve_eq_ok.mp h
  have hmem : found ∈ q.candidates m type := hfound ▸ List.mem_singleton_self found
  exact (List.mem_filter.mp hmem).2

/-- To resolve a query is to resolve it in the helper of a name. -/
theorem Resolver.resolve_eq_ok {helpers : Resolver} {name : String} {q : MethodQuery}
    {method : MethodRef} : helpers.resolve name q = .ok method ↔
      ∃ m found, helpers.find name = .ok m ∧ q.resolve m = .ok found ∧
        m.methodRef found = method := by
  unfold resolve
  cases helpers.find name with
  | error e => exact iff_of_false nofun nofun
  | ok m =>
    cases hfound : q.resolve m with
    | error e =>
      refine iff_of_false ?_ ?_
      · simp only [bind, Except.bind, hfound]
        nofun
      · rintro ⟨_, found, ⟨⟩, hother, -⟩
        rw [hfound] at hother
        cases hother
    | ok found =>
      simp only [bind, Except.bind, hfound, pure, Except.pure, Except.ok.injEq]
      constructor
      · exact fun h => ⟨m, found, rfl, hfound, h⟩
      · rintro ⟨_, other, rfl, hother, h⟩
        rw [hfound] at hother
        cases hother
        exact h

theorem importMethod_eq_ok {helpers : Resolver} {name : String} {q : MethodQuery}
    {refs later : ReferenceTable} {token : Token} :
    helpers.importMethod name q refs = .ok token later ↔ ∃ method,
      helpers.resolve name q = .ok method ∧ refs.intern (.method method) = (token, later) := by
  unfold Resolver.importMethod
  cases helpers.resolve name q with
  | error e => exact iff_of_false nofun nofun
  | ok method =>
    constructor
    · rintro ⟨⟩
      exact ⟨method, rfl, rfl⟩
    · rintro ⟨_, ⟨⟩, hintern⟩
      simp only [hintern]

theorem importMethod_eq_error_iff {helpers : Resolver} {name : String} {q : MethodQuery}
    {refs later : ReferenceTable} {e : Error} :
    helpers.importMethod name q refs = .error e later ↔
      helpers.resolve name q = .error e ∧ later = refs := by
  unfold Resolver.importMethod
  cases helpers.resolve name q with
  | ok method => exact iff_of_false nofun nofun
  | error fault =>
    constructor
    · rintro ⟨⟩
      exact ⟨rfl, rfl⟩
    · rintro ⟨⟨⟩, rfl⟩
      rfl

theorem growsTo_importMethod {helpers : Resolver} {name : String} {q : MethodQuery}
    {refs later : ReferenceTable} {token : Token}
    (h : helpers.importMethod name q refs = .ok token later) : refs.GrowsTo later := by
  obtain ⟨method, -, hintern⟩ := importMethod_eq_ok.mp h
  have hgrows := ReferenceTable.growsTo_intern refs (.method method)
  rw [hintern] at hgrows
  exact hgrows

/-! ## Calls -/

namespace CallRedirection

theorem onlyImports_rule (r : CallRedirection) (token : Token) (replacement : MethodRef) :
    (r.rule token replacement).OnlyImports := by
  intro body site s
  unfold Edit.after rule
  simp only
  cases body.instruction site with
  | error e => exact .refl s.references
  | ok i =>
    simp only
    cases i.token? with
    | none => exact .refl s.references
    | some t =>
      simp only
      cases s.references.method t with
      | error e => exact .refl s.references
      | ok method =>
        simp only
        cases fits method replacement <;> exact .refl s.references

theorem patches_run (r : CallRedirection) (helpers : Resolver) : Patches (r.run helpers) := by
  intro m
  unfold Edit.after run
  cases himport : helpers.importMethod r.replacementModule r.replacement m.references with
  | error e references =>
    obtain ⟨-, rfl⟩ := importMethod_eq_error_iff.mp himport
    exact .refl m
  | ok token references =>
    have hrefs : Patched m { m with references } := .withReferences (growsTo_importMethod himport)
    simp only
    cases references.method token with
    | error e => exact hrefs
    | ok replacement =>
      simp only
      have hsweep := Module.patches_sweep (r.onlyImports_rule token replacement) (candidates m)
      cases hresult : Module.sweep (r.rule token replacement) (candidates m)
          { m with references } with
      | ok result m' => exact hrefs.trans (hsweep.of_ok hresult)
      | error e m' => exact hrefs.trans (hsweep.of_error hresult)

end CallRedirection

/-! ## Fields -/

namespace FieldAccess

theorem after_scan (f : FieldAccess) (routing : FieldRouting) (fingerprint : String)
    (m : Module) : (f.scan routing fingerprint).after m =
      (Module.sweep routing.rule ((f.candidates m).map (·.2))).after m := by
  unfold Edit.after scan
  simp only
  cases Module.sweep routing.rule ((f.candidates m).map (·.2)) m <;> rfl

/-- To replay a method is to edit the one that the recorded name leads to. -/
theorem after_replayMethod (routing : FieldRouting) (typeName methodName : String) (m : Module) :
    (replayMethod routing typeName methodName).after m = m ∨
      ∃ t method, recordedMethod? m typeName methodName = some t ∧ m.methodDef? t = some method ∧
        (replayMethod routing typeName methodName).after m =
          (Module.editMethod t method [] routing.rule.rewrite).after m := by
  unfold Edit.after replayMethod
  cases hfound : (recordedMethod? m typeName methodName).bind
      fun t => (m.methodDef? t).map (t, ·) with
  | none => exact .inl rfl
  | some found =>
    obtain ⟨t, method⟩ := found
    obtain ⟨t', hname, ht'⟩ := Option.bind_eq_some_iff.mp hfound
    obtain ⟨method', ht, heq⟩ := Option.map_eq_some_iff.mp ht'
    cases heq
    refine .inr ⟨t, method, hname, ht, ?_⟩
    simp only
    cases Module.editMethod t method [] routing.rule.rewrite m with
    | error e m' => rfl
    | ok offers m' =>
      by_cases hpos : 0 < Offer.replacedCount offers
      · simp only [if_pos hpos]
      · simp only [if_neg hpos]

theorem patches_replayMethod (routing : FieldRouting) (typeName methodName : String) :
    Patches (replayMethod routing typeName methodName) := by
  intro m
  rcases after_replayMethod routing typeName methodName m with hkept | ⟨t, method, -, ht, hedit⟩
  · rw [hkept]
    exact .refl m
  · rw [hedit]
    exact Module.patched_editMethod routing.onlyExtends_rule.onlyImports.safe_rewrite ht

/-- What replaying each of some methods preserves, replaying them all preserves, whatever comes
of it. -/
theorem replayAll_preserves {P : Module → Prop} {routing : FieldRouting} :
    ∀ {pairs : List (String × String)} {report : Report} {m : Module},
      (∀ p ∈ pairs, ∀ m, P m → P ((replayMethod routing p.1 p.2).after m)) →
      P m → P ((replayAll routing pairs report).after m)
  | [], _, _, _, hm => hm
  | (typeName, methodName) :: rest, report, m, hreplay, hm => by
    obtain ⟨hone, hrest⟩ := List.forall_mem_cons.mp hreplay
    have hafter := hone m hm
    unfold Edit.after replayAll
    cases hresult : replayMethod routing typeName methodName m with
    | error e m' => exact Edit.after_error hresult ▸ hafter
    | ok offers m' => exact replayAll_preserves hrest (Edit.after_ok hresult ▸ hafter)

end FieldAccess

/-! ## Accessors -/

namespace AccessorForwarding

theorem onlyImports_install (argumentCount : Nat) (backend : Token) :
    Draft.OnlyImports (install argumentCount backend) := by
  intro d
  unfold Edit.after install
  cases forwarderBody argumentCount backend <;> exact .refl d.references

theorem patches_forward (f : AccessorForwarding) (helpers : Resolver) (t : Token) :
    Patches (f.forward helpers t) := by
  intro m
  unfold Edit.after forward
  cases ht : m.methodDef? t with
  | none => exact .refl m
  | some method =>
    simp only
    cases himport : helpers.importMethod f.backendModule (f.backendOf method) m.references with
    | error e references =>
      obtain ⟨-, rfl⟩ := importMethod_eq_error_iff.mp himport
      exact .refl m
    | ok backend references =>
      have hrefs : Patched m { m with references } :=
        .withReferences (growsTo_importMethod himport)
      have ht' : Module.methodDef? { m with references } t = some method := ht
      exact hrefs.trans (Module.patched_editMethod
        (fun rt => Draft.safe_transact (onlyImports_install _ backend)) ht')

theorem patches_forwardEach (f : AccessorForwarding) (helpers : Resolver) :
    ∀ (names : List String) (report : Report), Patches (f.forwardEach helpers names report)
  | [], _, m => .refl m
  | name :: rest, report, m => by
    unfold Edit.after forwardEach
    cases f.accessor? m name with
    | none => exact patches_forwardEach f helpers rest _ m
    | some t =>
      have hone := f.patches_forward helpers t
      simp only
      cases hresult : f.forward helpers t m with
      | ok done m' => exact (hone.of_ok hresult).trans (patches_forwardEach f helpers rest _ m')
      | error e m' =>
        have hm' : Patched m m' := hone.of_error hresult
        by_cases hscoped : e.isMethodScoped = true
        · simp only [if_pos hscoped]
          exact hm'.trans (patches_forwardEach f helpers rest _ m')
        · simp only [if_neg hscoped]
          exact hm'

theorem patches_run (f : AccessorForwarding) (helpers : Resolver) : Patches (f.run helpers) := by
  intro m
  unfold Edit.after run
  cases m.findType? f.trackedType with
  | none => exact .refl m
  | some t => exact f.patches_forwardEach helpers accessors .nothing m

end AccessorForwarding

/-! ## The lookup of types -/

namespace TypeLookupGuard

theorem onlyImports_seed (g : TypeLookupGuard) (lookup : FieldRef) :
    Draft.OnlyImports (g.seed lookup) := by
  intro d
  unfold Edit.after seed
  cases lastReturn? d.body with
  | none => exact .refl d.references
  | some site =>
    have hedit : ∀ (member getter setter : MemberRef) (code : Token → Token → Token →
        List Instruction), Draft.OnlyImports (do
          let field ← Draft.importMember member
          let get ← Draft.importMember getter
          let set ← Draft.importMember setter
          Draft.onBody (MethodBody.replace site (.of (code field get set)))
          return true : Edit (Draft Unit) Bool) := by
      intro member getter setter code
      refine .bind (Draft.onlyImports_importMember member) fun field => ?_
      refine .bind (Draft.onlyImports_importMember getter) fun get => ?_
      refine .bind (Draft.onlyImports_importMember setter) fun set => ?_
      exact .bind (Draft.onlyImports_onBody _) fun _ => Edit.onlyImports_pure true
    exact hedit _ _ _ (fun field get set => [.of .ldsfld (.token field), .ldstr g.seedName,
      .ldstr g.seedType, .call get, .callvirt set, .plain .ret]) d

theorem onlyImports_refuse (g : TypeLookupGuard) : Draft.OnlyImports g.refuse := by
  intro d
  unfold Edit.after refuse
  cases d.body.code.first? with
  | none => exact .refl d.references
  | some first =>
    have hedit : Draft.OnlyImports (do
        let equality ← Draft.importMember (.method stringEquality)
        Draft.onBody (insertAllBefore first (guardCode g.rejected equality first))
        return true : Edit (Draft Unit) Bool) :=
      .bind (Draft.onlyImports_importMember _) fun _ =>
        .bind (Draft.onlyImports_onBody _) fun _ => Edit.onlyImports_pure true
    exact hedit d

theorem patches_guardMethod {edit : Edit (Draft Unit) Bool} (h : Draft.OnlyImports edit)
    (t : Token) (report : Report) : Patches (guardMethod t edit report) := by
  intro m
  have hone : Patches (Module.methodAt t >>= fun method => Module.editMethod t method false
      fun returnType => Draft.transact returnType id edit) :=
    Module.patches_methodAt fun m method ht =>
      Module.patched_editMethod (fun rt => Draft.safe_transact h) ht
  unfold Edit.after guardMethod
  simp only
  cases hresult : (Module.methodAt t >>= fun method => Module.editMethod t method false
      fun returnType => Draft.transact returnType id edit) m with
  | ok done m' =>
    have hm' : Patched m m' := hone.of_ok hresult
    cases done <;> exact hm'
  | error e m' =>
    have hm' : Patched m m' := hone.of_error hresult
    by_cases hscoped : e.isMethodScoped = true
    · simp only [if_pos hscoped]; exact hm'
    · simp only [if_neg hscoped]; exact hm'

theorem patches_run (g : TypeLookupGuard) : Patches g.run := by
  intro m
  unfold Edit.after run
  cases (m.types.toList.filter fun t => !t.isNested).find? fun t => t.name == g.typeName with
  | none => exact .refl m
  | some t =>
    simp only
    cases staticConstructor? m t with
    | none => exact .refl m
    | some constructor =>
      have hseed : ∀ field, Patches (guardMethod constructor (g.seed field) .nothing) :=
        fun field => patches_guardMethod (g.onlyImports_seed field) constructor .nothing
      have hrefuse : ∀ lookup report, Patches (guardMethod lookup g.refuse report) :=
        fun lookup report => patches_guardMethod g.onlyImports_refuse lookup report
      simp only
      cases g.knownTypes? m t with
      | none =>
        cases g.lookup? m t with
        | none => exact .refl m
        | some lookup => exact hrefuse lookup .nothing m
      | some field =>
        simp only
        cases hresult : guardMethod constructor (g.seed field) .nothing m with
        | error e m' => exact (hseed field).of_error hresult
        | ok report m' =>
          have hm' : Patched m m' := (hseed field).of_ok hresult
          cases g.lookup? m t with
          | none => exact hm'
          | some lookup => exact hm'.trans (hrefuse lookup report m')

end TypeLookupGuard

/-! ## The reflective read -/

namespace ReflectiveGetter

theorem onlyImports_route (getter : MethodRef) (methodName : String) :
    Draft.OnlyImports (route getter methodName) := by
  intro d
  unfold Edit.after route
  cases findWindow d.body d.references methodName with
  | error e => exact .refl d.references
  | ok w =>
    simp only
    cases unboxedType? d.body w with
    | none => exact .refl d.references
    | some value =>
      have hedit : Draft.OnlyImports (do
          let getName ← Draft.importMember (.method getName)
          let getVariable ← Draft.importMember (.method (getter.instantiate [value]))
          Draft.onBody (rewriteWindow w getName getVariable)
          return true : Edit (Draft Unit) Bool) :=
        .bind (Draft.onlyImports_importMember _) fun _ =>
          .bind (Draft.onlyImports_importMember _) fun _ =>
            .bind (Draft.onlyImports_onBody _) fun _ => Edit.onlyImports_pure true
      exact hedit d

theorem patches_run : Patches run := by
  intro m
  unfold Edit.after run
  cases m.findType? extensionsType with
  | none => exact .refl m
  | some t =>
    simp only
    cases collector? m t with
    | none => exact .refl m
    | some target =>
      cases getter? m with
      | none => exact .refl m
      | some getter =>
        have hroute := onlyImports_route getter (m.describeMethod target)
        have hedit : Patches (do
            let method ← Module.methodAt target
            let _ ← Module.editMethod target method false fun returnType =>
              Draft.transact returnType id (route getter (m.describeMethod target))
            return Report.nothing.patched 1 0 : Edit Module Report) := by
          refine Module.patches_methodAt fun m' method ht => ?_
          have hone : Patched m' ((Module.editMethod target method false fun returnType =>
              Draft.transact returnType id (route getter (m.describeMethod target))).after m') :=
            Module.patched_editMethod (fun rt => Draft.safe_transact hroute) ht
          rw [Edit.after_bind]
          cases hresult : Module.editMethod target method false (fun returnType =>
              Draft.transact returnType id (route getter (m.describeMethod target))) m' with
          | ok done m'' => exact Edit.after_ok hresult ▸ hone
          | error e m'' => exact Edit.after_error hresult ▸ hone
        exact hedit m

end ReflectiveGetter

/-! ## Runs -/

/-- An edit of a session that, whatever comes of it, only patches the module. -/
abbrev Session.Patches {α : Type} (edit : Edit Session α) : Prop :=
  edit.Ensures fun s s' => Patched s.module s'.module

theorem Session.module_onModule {α : Type} (edit : Edit Module α) (s : Session) :
    ((onModule edit).after s).module = edit.after s.module := by
  rw [onModule, Edit.after_within]

theorem Session.patches_onModule {α : Type} {edit : Edit Module α} (h : Module.Patches edit) :
    Session.Patches (Session.onModule edit) := by
  intro s
  show Patched s.module ((onModule edit).after s).module
  rw [module_onModule]
  exact h s.module

def Environment.record? (env : Environment) (files : FileTree) (pass assembly : String) :
    Except Error (Option PatchRecord) :=
  match env.recordLocation? files pass assembly with
  | none => .ok none
  | some (path, fingerprint) => PatchRecord.load files path fingerprint

namespace FieldAccess

/-- A pass over the fields replays the record there is, and else looks through the module. -/
theorem run_eq (f : FieldAccess) (env : Environment) (s : Session) : f.run env s =
    match FieldRouting.ofModule f s.module env.helpers with
    | .error e => .error e s
    | .ok routing =>
      match env.record? s.files passName s.module.name with
      | .error e => .error e s
      | .ok (some record) => Session.onModule (replay routing record) s
      | .ok none =>
        f.scanAndRecord routing (env.recordLocation? s.files passName s.module.name) s := by
  unfold run Environment.record?
  cases FieldRouting.ofModule f s.module env.helpers with
  | error e => rfl
  | ok routing =>
    simp only
    cases env.recordLocation? s.files passName s.module.name with
    | none => rfl
    | some location =>
      obtain ⟨path, fingerprint⟩ := location
      rfl

theorem module_scanAndRecord (f : FieldAccess) (routing : FieldRouting)
    (location : Option (String × String)) (s : Session) :
    ((f.scanAndRecord routing location).after s).module =
      (f.scan routing ((location.map (·.2)).getD "")).after s.module := by
  unfold Edit.after scanAndRecord
  cases f.scan routing ((location.map (·.2)).getD "") s.module with
  | error e m => rfl
  | ok result m => cases location <;> rfl

/-- What replays and scans do to a module, a pass does to it. -/
theorem module_run {P : Module → Prop} {f : FieldAccess} {env : Environment} {s : Session}
    (hkept : P s.module)
    (hreplay : ∀ routing record, FieldRouting.ofModule f s.module env.helpers = .ok routing →
      env.record? s.files passName s.module.name = .ok (some record) →
        P ((replay routing record).after s.module))
    (hscan : ∀ routing fingerprint, FieldRouting.ofModule f s.module env.helpers = .ok routing →
      P ((f.scan routing fingerprint).after s.module)) :
    P ((f.run env).after s).module := by
  unfold Edit.after
  rw [run_eq]
  cases hrouting : FieldRouting.ofModule f s.module env.helpers with
  | error e => exact hkept
  | ok routing =>
    simp only
    cases hrecord : env.record? s.files passName s.module.name with
    | error e => exact hkept
    | ok record? =>
      cases record? with
      | some record =>
        exact Session.module_onModule (replay routing record) s ▸
          hreplay routing record hrouting hrecord
      | none => exact f.module_scanAndRecord routing _ s ▸ hscan routing _ hrouting

/-- What the edit of a method by the rule of the routing preserves, a pass preserves. -/
theorem run_preserves {P : Module → Prop} {f : FieldAccess} {env : Environment} {s : Session}
    (hkept : P s.module)
    (hedit : ∀ routing, FieldRouting.ofModule f s.module env.helpers = .ok routing →
      ∀ t m method, P m → m.methodDef? t = some method →
        P ((Module.editMethod t method [] routing.rule.rewrite).after m)) :
    P ((f.run env).after s).module := by
  refine module_run hkept (fun routing record hrouting _ => ?_)
    fun routing fingerprint hrouting => ?_
  · refine replayAll_preserves (fun p _ m hm => ?_) hkept
    rcases after_replayMethod routing p.1 p.2 m with hsame | ⟨t, method, -, ht, hafter⟩
    · rw [hsame]
      exact hm
    · rw [hafter]
      exact hedit routing hrouting t m method hm ht
  · rw [after_scan, Module.after_sweep]
    exact Module.sweepMethods_preserves
      (fun t _ m method hm ht => hedit routing hrouting t m method hm ht) hkept

theorem patches_run (f : FieldAccess) (env : Environment) : Session.Patches (f.run env) :=
  fun s => run_preserves (.refl s.module) fun routing _ _ _ _ hm ht => hm.trans
    (Module.patched_editMethod routing.onlyExtends_rule.onlyImports.safe_rewrite ht)

end FieldAccess

theorem Pass.patches_run (pass : Pass) (env : Environment) : Session.Patches (pass.run env) := by
  cases pass with
  | callRedirection redirection =>
    exact Session.patches_onModule (redirection.patches_run env.helpers)
  | fieldAccess access => exact access.patches_run env
  | accessorForwarding forwarding =>
    exact Session.patches_onModule (forwarding.patches_run env.helpers)
  | typeLookupGuard guard => exact Session.patches_onModule guard.patches_run
  | reflectiveGetter => exact Session.patches_onModule ReflectiveGetter.patches_run

namespace Registry

theorem patches_runEach (env : Environment) : ∀ (passes : List Pass)
    (done : List (String × Report)), Session.Patches (runEach env passes done)
  | [], _, s => .refl s.module
  | pass :: rest, done, s => by
    unfold Edit.after runEach
    have hpass := pass.patches_run env
    cases hresult : pass.run env s with
    | error e s' => exact hpass.of_error hresult
    | ok report s' =>
      exact (hpass.of_ok hresult).trans (patches_runEach env rest ((pass.name, report) :: done) s')

theorem module_dump (env : Environment) (s : Session) : (dump env s).module = s.module := by
  unfold dump
  cases env.settings.dumpFile? s.module.name <;> rfl

/-- Whatever passes are run on a module, in whatever environment, and whether or not they
all succeed: the definitions stay, references are only added, and every body is the one
before the run or verified. -/
theorem patched_run (r : Registry) (env : Environment) (s : Session) :
    Patched s.module ((r.run env).after s).module := by
  unfold Edit.after run
  have hall := patches_runEach env (r.passesFor s.module.fileName) []
  cases hresult : runEach env (r.passesFor s.module.fileName) [] s with
  | error e s' => exact hall.of_error hresult
  | ok reports s' =>
    have hs' : Patched s.module s'.module := hall.of_ok hresult
    by_cases hchange : (reports.any fun report => report.2.isChange) = true
    · simp only [if_pos hchange, module_dump]
      exact hs'
    · simp only [if_neg hchange]
      exact hs'

end Registry

end CilWeave
