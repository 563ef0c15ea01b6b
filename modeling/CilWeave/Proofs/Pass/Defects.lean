import CilWeave.Proofs.Module.FullName
import CilWeave.Proofs.Pass.CallRedirection.Exactness
import CilWeave.Proofs.Pass.Course
import CilWeave.Proofs.Pass.FieldAccess.Completeness

/-
No defect of a method ends a pass.

Each pass edits methods by edits that withdraw when they fail, so it has its course through the
methods it picks, whatever their bodies hold (`Module.Withstood`). What can end a pass is said for
each: a replacement or an accessor that is not found, or a tracked type that is not there
(`Pass.no_defect_ends`). The guards of a type lookup need nothing from outside, so nothing
ends them.
-/

namespace CilWeave

open CilWeave.Module (Tallied Tried Withstood)

/-! ## Calls -/

namespace CallRedirection

/-- A call is found by the method its token names, so the look-up of that method cannot fail. -/
theorem confined_rule (r : CallRedirection) (token : Token) (replacement : MethodRef) :
    (r.rule token replacement).Confined := by
  intro body site i s e s' hi happlies h
  have hcall : r.applies s.references i = true := happlies
  simp only [rule, MethodBody.instruction, hi] at h
  cases ht : i.token? with
  | none =>
    simp only [ht] at h
    cases h
  | some t =>
    simp only [ht] at h
    cases hmethod : s.references.method t with
    | error e =>
      simp only [applies, ht, hmethod, Bool.and_false] at hcall
      cases hcall
    | ok method =>
      simp only [hmethod] at h
      split at h <;> cases h

/-- A replacement that is found is imported and named by its token, if the table has room. -/
theorem exists_import {helpers : Resolver} {module : String} {q : MethodQuery}
    {refs : ReferenceTable} {replacement : MethodRef}
    (hresolve : helpers.resolve module q = .ok replacement) (hroom : refs.size + 1 < 0x1000000) :
    ∃ token later, helpers.importMethod module q refs = .ok token later ∧
      later.method token = .ok replacement := by
  have hfits : (refs.intern (.method replacement)).2.FitsTokens := by
    unfold ReferenceTable.FitsTokens
    rcases refs.intern_cases (.method replacement) with ⟨-, heq⟩ | ⟨-, heq⟩
    · rw [heq]
      exact Nat.lt_of_succ_lt hroom
    · have hsize := congrArg List.length heq
      rw [List.length_append, List.length_singleton] at hsize
      show (refs.intern (.method replacement)).2.toList.length < _
      rw [hsize]
      exact hroom
  exact ⟨_, _, importMethod_eq_ok.mpr ⟨replacement, hresolve, rfl⟩,
    ReferenceTable.method_iff.mpr (ReferenceTable.get_intern hfits)⟩

/-- A redirection that has its replacement comes to its end. -/
theorem exists_withstood_run {r : CallRedirection} {helpers : Resolver} {m : Module} {token : Token}
    {refs : ReferenceTable} {replacement : MethodRef}
    (himport : helpers.importMethod r.replacementModule r.replacement m.references =
      .ok token refs) (hnamed : refs.method token = .ok replacement) :
    ∃ report m' tries, r.run helpers m = .ok report m' ∧
      Withstood (fun _ edit => edit = (r.rule token replacement).rewrite) m m' (candidates m)
        report.failedMethods tries := by
  obtain ⟨tries, result, m', hsweep, hwithstood⟩ := Module.exists_withstood_sweep
    (r.confined_rule token replacement) (candidates m) { m with references := refs }
  refine ⟨result.1, m', tries, ?_, hwithstood.of_imported (growsTo_importMethod himport)⟩
  simp only [run, himport, hnamed, hsweep]

end CallRedirection

/-! ## Fields -/

namespace FieldAccess

/-- The query for a generic accessor of some number of arguments. -/
def genericAccessor (f : FieldAccess) (name : String) (count : Nat) : MethodQuery :=
  { MethodQuery.named f.genericType name with
    genericParameters := some 1
    parameterCount := some count }

theorem exists_routing {f : FieldAccess} {m : Module} {helpers : Resolver} {tracked : TypeDef}
    {getter setter : MethodRef} (htracked : m.findType? f.trackedType = some tracked)
    (hgetter : helpers.resolve f.genericModule (f.genericAccessor f.genericGetter 2) = .ok getter)
    (hsetter : helpers.resolve f.genericModule (f.genericAccessor f.genericSetter 3) =
      .ok setter) : ∃ routing, FieldRouting.ofModule f m helpers = .ok routing := by
  unfold genericAccessor at hgetter hsetter
  simp only [FieldRouting.ofModule, Accessors.ofType, htracked, hgetter, hsetter]
  exact ⟨_, rfl⟩

theorem exists_withstood_scan (f : FieldAccess) (routing : FieldRouting) (fingerprint : String)
    (m : Module) : ∃ report record m' tries,
      f.scan routing fingerprint m = .ok (report, record) m' ∧
      Withstood (fun _ edit => edit = routing.rule.rewrite) m m'
        ((f.candidates m).map Prod.snd) report.failedMethods tries := by
  obtain ⟨tries, result, m', hsweep, hwithstood⟩ :=
    Module.exists_withstood_sweep routing.confined_rule ((f.candidates m).map Prod.snd) m
  refine ⟨result.1, recordOf (f.candidates m) m' fingerprint result.2, m', tries, ?_, hwithstood⟩
  simp only [scan, hsweep]

/-- A pass over the fields that has its routing and follows no record comes to its end. -/
theorem exists_withstood_run {f : FieldAccess} {env : Environment} {s : Session}
    {routing : FieldRouting} (hrouting : FieldRouting.ofModule f s.module env.helpers = .ok routing)
    (hrecord : env.record? s.files passName s.module.name = .ok none) :
    ∃ report s' tries, f.run env s = .ok report s' ∧
      Withstood (fun _ edit => edit = routing.rule.rewrite) s.module s'.module
        ((f.candidates s.module).map Prod.snd) report.failedMethods tries := by
  rw [run_eq, hrouting]
  simp only [hrecord]
  generalize env.recordLocation? s.files passName s.module.name = location
  obtain ⟨report, record, m', tries, hscan, hwithstood⟩ :=
    f.exists_withstood_scan routing ((location.map (·.2)).getD "") s.module
  cases location with
  | none =>
    refine ⟨report, ⟨m', s.files⟩, tries, ?_, hwithstood⟩
    simp only [scanAndRecord, hscan]
  | some location =>
    refine ⟨report, ⟨m', (record.save s.files location.1).1⟩, tries, ?_, hwithstood⟩
    simp only [scanAndRecord, hscan]

theorem run_of_untracked {f : FieldAccess} {env : Environment} {s : Session}
    (h : s.module.findType? f.trackedType = none) :
    f.run env s = .error (.typeNotFound f.trackedType) s := by
  rw [run_eq, FieldRouting.ofModule, h]

end FieldAccess

/-! ## Accessors -/

namespace AccessorForwarding

variable {f : AccessorForwarding} {helpers : Resolver} {m start : Module} {t : Token}
  {method : MethodDef} {name : String}

theorem confined_pushAll : ∀ code : List Instruction, Edit.Confined (InstructionList.pushAll code)
  | [], l, e, l', h => by cases h
  | i :: rest, l, e, l', h => by
    rw [InstructionList.pushAll] at h
    split at h
    · exact confined_pushAll rest _ e l' h
    · rename_i hpush
      cases h
      exact InstructionList.confined_push i _ _ _ hpush

theorem confined_install (argumentCount : Nat) (backend : Token) :
    Edit.Confined (install argumentCount backend) := by
  intro d e d' h
  unfold install at h
  split at h
  · rename_i hbody
    cases h
    unfold forwarderBody at hbody
    split at hbody
    · cases hcode : InstructionList.ofList (forwarder argumentCount backend) with
      | error fault =>
        rw [hcode] at hbody
        cases hbody
        unfold InstructionList.ofList at hcode
        split at hcode <;> cases hcode
        rename_i hpush
        exact confined_pushAll _ _ _ _ hpush
      | ok code =>
        rw [hcode] at hbody
        cases hbody
    · cases hbody
      rfl
  · cases h

theorem accessor?_of_patched (h : start.Patched m) (f : AccessorForwarding) (name : String) :
    f.accessor? m name = f.accessor? start name := by
  unfold accessor?
  rw [Module.findType?_of_types h.types]
  refine congrArg (start.findType? f.trackedType).bind (funext fun type => ?_)
  refine congrArg (type.methods.toList.find? ·) (funext fun token => ?_)
  have hrel := h.methodDef?_rel token
  generalize start.methodDef? token = found at hrel ⊢
  generalize m.methodDef? token = found' at hrel ⊢
  cases hrel with
  | none => rfl
  | some hmethod =>
    have hbody := hmethod.hasBody_eq
    simp only [hmethod.name, hbody]

theorem not_scoped_of_resolve {q : MethodQuery} {module : String} {e : Error}
    (h : helpers.resolve module q = .error e) : e.isMethodScoped = false := by
  unfold Resolver.resolve Resolver.find at h
  split at h
  · rename_i helper _
    change (q.resolve helper >>= fun found => pure (helper.methodRef found)) = .error e at h
    cases hquery : q.resolve helper with
    | ok found =>
      rw [hquery] at h
      cases h
    | error fault =>
      rw [hquery] at h
      cases h
      unfold MethodQuery.resolve at hquery
      split at hquery
      · cases hquery
        rfl
      · split at hquery <;> cases hquery <;> rfl
  · cases h
    rfl

/-- The edits that forward a method: each installs the call of the backend found for it. -/
def Forwards (f : AccessorForwarding) (helpers : Resolver) (m : Module) (t : Token)
    (edit : MethodEdit Bool) : Prop :=
  ∃ method backend refs later, m.methodDef? t = some method ∧
    helpers.importMethod f.backendModule (f.backendOf method) refs = .ok backend later ∧
    edit = fun returnType =>
      Draft.transact returnType id (install method.signature.argumentCount backend)

/-- The backend of an accessor is not found. -/
def Lacks (f : AccessorForwarding) (helpers : Resolver) (m : Module) (name : String)
    (e : Error) : Prop :=
  ∃ t method, f.accessor? m name = some t ∧ m.methodDef? t = some method ∧
    helpers.resolve f.backendModule (f.backendOf method) = .error e

theorem exists_methodDef?_of_accessor? (h : f.accessor? m name = some t) :
    ∃ method, m.methodDef? t = some method ∧ method.name = name ∧ method.hasBody = true := by
  obtain ⟨type, -, hfind⟩ := Option.bind_eq_some_iff.mp h
  have hp := List.find?_some hfind
  cases ht : m.methodDef? t with
  | none => simp only [ht, Bool.false_eq_true] at hp
  | some method =>
    simp only [ht] at hp
    obtain ⟨hname, hbody⟩ := Bool.and_eq_true_iff.mp hp
    exact ⟨method, rfl, eq_of_beq hname, hbody⟩

theorem nodup_accessors (f : AccessorForwarding) (m : Module) :
    (accessors.filterMap (f.accessor? m)).Nodup := by
  refine List.Nodup.filterMap (fun name name' t ht ht' => ?_) (by decide)
  obtain ⟨method, hmethod, hname, -⟩ := exists_methodDef?_of_accessor? ht
  obtain ⟨method', hmethod', hname', -⟩ := exists_methodDef?_of_accessor? ht'
  rw [hmethod] at hmethod'
  cases hmethod'
  exact hname.symm.trans hname'

/-- To forward an accessor is to try an edit at it, unless its backend is not found. -/
theorem exists_tried_forward (f : AccessorForwarding) (helpers : Resolver)
    (hm : start.Patched m) (ht : start.methodDef? t = some method) :
    (∃ refs edit m₁ failed, m.references.GrowsTo refs ∧ f.Forwards helpers start t edit ∧
      Tried edit { m with references := refs } t m₁ failed ∧
      (failed = false ∧ (∃ a, f.forward helpers t m = .ok a m₁) ∨
        failed = true ∧ ∃ e, e.isMethodScoped = true ∧ f.forward helpers t m = .error e m₁)) ∨
    ∃ e, helpers.resolve f.backendModule (f.backendOf method) = .error e ∧
      f.forward helpers t m = .error e m := by
  have hrel := hm.methodDef?_rel t
  rw [ht] at hrel
  cases ht' : m.methodDef? t with
  | none =>
    rw [ht'] at hrel
    cases hrel
  | some method' =>
    rw [ht'] at hrel
    obtain ⟨hpatched⟩ := hrel
    have hbackend : f.backendOf method' = f.backendOf method := by
      unfold backendOf
      rw [hpatched.name, hpatched.signature]
    unfold forward
    simp only [ht', hbackend, hpatched.signature]
    cases hresolve : helpers.resolve f.backendModule (f.backendOf method) with
    | error e =>
      refine .inr ⟨e, rfl, ?_⟩
      simp only [Resolver.importMethod, hresolve]
    | ok found =>
      have himport : helpers.importMethod f.backendModule (f.backendOf method) m.references =
          .ok (m.references.intern (.method found)).1
            (m.references.intern (.method found)).2 :=
        importMethod_eq_ok.mpr ⟨found, hresolve, rfl⟩
      have hedit : MethodEdit.Withdraws fun returnType => Draft.transact returnType id
          (install method.signature.argumentCount (m.references.intern (.method found)).1) :=
        Draft.withdraws_transact (confined_install _ _)
      obtain ⟨m₁, failed, htried, hresult⟩ := Module.exists_tried false hedit
        (show Module.methodDef? { m with references := (m.references.intern (.method found)).2 } t =
          some method' from ht')
      refine .inl ⟨_, _, m₁, failed, ReferenceTable.growsTo_intern m.references (.method found),
        ⟨method, _, _, _, ht, himport, rfl⟩, htried, ?_⟩
      simp only [himport]
      exact hresult

/-- The accessors of some names are forwarded one after the other, until a backend is not found. -/
theorem tallied_forwardEach (f : AccessorForwarding) (helpers : Resolver) :
    ∀ (names : List String) (report : Report) {m : Module}, start.Patched m →
    (∃ report' m' tries, f.forwardEach helpers names report m = .ok report' m' ∧
      Tallied (f.Forwards helpers start) m (names.filterMap (f.accessor? start))
        report.failedMethods report'.failedMethods tries m') ∨
    ∃ e m' name, f.forwardEach helpers names report m = .error e m' ∧ name ∈ names ∧
      f.Lacks helpers start name e
  | [], report, m, hm => .inl ⟨report, m, [], rfl, .nil _ m _⟩
  | name :: rest, report, m, hm => by
    rw [forwardEach, f.accessor?_of_patched hm]
    cases haccessor : f.accessor? start name with
    | none =>
      rw [List.filterMap_cons_none haccessor]
      rcases tallied_forwardEach f helpers rest { report with missed := report.missed + 1 } hm with
        hdone | ⟨e, m', lacking, hresult, hmem, hlacks⟩
      · exact .inl hdone
      · exact .inr ⟨e, m', lacking, hresult, List.mem_cons_of_mem _ hmem, hlacks⟩
    | some t =>
      rw [List.filterMap_cons_some haccessor]
      obtain ⟨method, ht, -⟩ := exists_methodDef?_of_accessor? haccessor
      -- The others follow, whatever came of this one.
      have goOn : ∀ {refs : ReferenceTable} {edit : MethodEdit Bool} {m₁ : Module} {failed : Bool}
          {report₁ : Report}, m.references.GrowsTo refs → f.Forwards helpers start t edit →
          Tried edit { m with references := refs } t m₁ failed → start.Patched m₁ →
          report₁.failedMethods = report.failedMethods + (if failed then 1 else 0) →
          (∃ report' m' tries, f.forwardEach helpers rest report₁ m₁ = .ok report' m' ∧
            Tallied (f.Forwards helpers start) m (t :: rest.filterMap (f.accessor? start))
              report.failedMethods report'.failedMethods tries m') ∨
          ∃ e m' lacking, f.forwardEach helpers rest report₁ m₁ = .error e m' ∧
            lacking ∈ name :: rest ∧ f.Lacks helpers start lacking e := by
        intro refs edit m₁ failed report₁ hrefs hforwards htried hm₁ hcount
        rcases tallied_forwardEach f helpers rest report₁ hm₁ with
          ⟨report', m', tries, hresult, htallied⟩ | ⟨e, m', lacking, hresult, hmem, hlacks⟩
        · exact .inl ⟨report', m', (t, failed) :: tries, hresult,
            htallied.cons hrefs hforwards htried hcount⟩
        · exact .inr ⟨e, m', lacking, hresult, List.mem_cons_of_mem _ hmem, hlacks⟩
      have hpatches := f.patches_forward helpers t
      rcases f.exists_tried_forward helpers hm ht with
        ⟨refs, edit, m₁, failed, hrefs, hforwards, htried,
          ⟨rfl, done, hresult⟩ | ⟨rfl, e, hscoped, hresult⟩⟩ | ⟨e, hresolve, hresult⟩
      · simp only [hresult]
        exact goOn hrefs hforwards htried (hm.trans (hpatches.of_ok hresult)) rfl
      · simp only [hresult, if_pos hscoped]
        exact goOn hrefs hforwards htried (hm.trans (hpatches.of_error hresult)) rfl
      · simp only [hresult, not_scoped_of_resolve hresolve, Bool.false_eq_true, if_false]
        exact .inr ⟨e, m, name, rfl, List.mem_cons_self, t, method, haccessor, ht, hresolve⟩

/-- Forwarding ends with its report, unless the tracked type or the backend of an accessor is not
found. -/
theorem withstood_run (f : AccessorForwarding) (helpers : Resolver) (m : Module) :
    (∃ report m' tries, f.run helpers m = .ok report m' ∧
      Withstood (f.Forwards helpers m) m m' (accessors.filterMap (f.accessor? m))
        report.failedMethods tries) ∨
    (f.run helpers m = .error (.typeNotFound f.trackedType) m ∧
      m.findType? f.trackedType = none) ∨
    ∃ e m' name, f.run helpers m = .error e m' ∧ name ∈ accessors ∧
      f.Lacks helpers m name e := by
  unfold run
  cases htype : m.findType? f.trackedType with
  | none => exact .inr (.inl ⟨rfl, rfl⟩)
  | some tracked =>
    rcases tallied_forwardEach f helpers accessors .nothing (.refl m) with
      ⟨report, m', tries, hresult, htallied⟩ | hlacks
    · exact .inl ⟨report, m', tries, hresult, htallied.withstood⟩
    · exact .inr (.inr hlacks)

end AccessorForwarding

/-! ## The lookup of types -/

namespace TypeLookupGuard

theorem confined_importMember (member : MemberRef) :
    Edit.Confined (Draft.importMember member : Edit (Draft Unit) Token) := by
  intro d e d' h
  cases h

theorem confined_insertAllBefore (anchor : InstrId) : ∀ code : List Instruction,
    Edit.Confined (insertAllBefore anchor code)
  | [] => Edit.confined_pure ()
  | i :: rest =>
    (InstructionList.confined_insertBefore anchor i).within.bind fun _ =>
      confined_insertAllBefore anchor rest

theorem confined_seed (g : TypeLookupGuard) (lookup : FieldRef) :
    Edit.Confined (g.seed lookup) := by
  intro d e d' h
  unfold seed at h
  split at h
  · cases h
  · rename_i site _
    have hedit : ∀ code : Token → Token → Token → List Instruction, Edit.Confined (do
        let field ← Draft.importMember (.field lookup)
        let get ← Draft.importMember (.method getType)
        let set ← Draft.importMember (.method (setItem lookup.fieldType))
        Draft.onBody (MethodBody.replace site (.of (code field get set)))
        return true : Edit (Draft Unit) Bool) := by
      intro code
      refine (confined_importMember _).bind fun field => ?_
      refine (confined_importMember _).bind fun get => ?_
      refine (confined_importMember _).bind fun set => ?_
      refine (Draft.confined_onBody (MethodBody.confined_replace _ _)).bind fun _ => ?_
      exact Edit.confined_pure true
    exact hedit (fun field get set => [.of .ldsfld (.token field), .ldstr g.seedName,
      .ldstr g.seedType, .call get, .callvirt set, .plain .ret]) d e d' h

theorem confined_refuse (g : TypeLookupGuard) : Edit.Confined g.refuse := by
  intro d e d' h
  unfold refuse at h
  split at h
  · cases h
  · rename_i first _
    have hedit : Edit.Confined (do
        let equality ← Draft.importMember (.method stringEquality)
        Draft.onBody (insertAllBefore first (guardCode g.rejected equality first))
        return true : Edit (Draft Unit) Bool) := by
      refine (confined_importMember _).bind fun equality => ?_
      refine (Draft.confined_onBody (confined_insertAllBefore first _)).bind fun _ => ?_
      exact Edit.confined_pure true
    exact hedit d e d' h

/-- To guard a method is to try an edit at it, whatever method it is. -/
theorem exists_tried_guardMethod {edit : Edit (Draft Unit) Bool} (hedit : edit.Confined)
    (t : Token) (report : Report) (m : Module) :
    ∃ report' m₁ failed, guardMethod t edit report m = .ok report' m₁ ∧
      Tried (fun returnType => Draft.transact returnType id edit) m t m₁ failed ∧
      report'.failedMethods = report.failedMethods + (if failed then 1 else 0) := by
  have hwithdraws : MethodEdit.Withdraws fun returnType => Draft.transact returnType id edit :=
    Draft.withdraws_transact hedit
  unfold guardMethod
  cases ht : m.methodDef? t with
  | none =>
    have houtcome : (Module.methodAt t >>= fun method => Module.editMethod t method false
        fun returnType => Draft.transact returnType id edit) m =
        .error (.dangling (.method t)) m := by
      show EStateM.bind (Module.methodAt t) _ m = _
      rw [EStateM.bind, Module.methodAt, ht]
    simp only [houtcome]
    exact ⟨report.failed, m, true, rfl, .absent ht, rfl⟩
  | some method =>
    have houtcome : (Module.methodAt t >>= fun method => Module.editMethod t method false
        fun returnType => Draft.transact returnType id edit) m =
        Module.editMethod t method false
          (fun returnType => Draft.transact returnType id edit) m := by
      show EStateM.bind (Module.methodAt t) _ m = _
      rw [EStateM.bind, Module.methodAt, ht]
    obtain ⟨m₁, failed, htried, ⟨rfl, changed, hresult⟩ | ⟨rfl, e, hscoped, hresult⟩⟩ :=
      Module.exists_tried false hwithdraws ht
    · simp only [houtcome, hresult]
      cases changed with
      | true => exact ⟨_, m₁, false, rfl, htried, rfl⟩
      | false => exact ⟨_, m₁, false, rfl, htried, rfl⟩
    · simp only [houtcome, hresult, if_pos hscoped]
      exact ⟨_, m₁, true, rfl, htried, rfl⟩

def lookupType? (g : TypeLookupGuard) (m : Module) : Option TypeDef :=
  (m.types.toList.filter fun t => !t.isNested).find? fun t => t.name == g.typeName

/-- The methods that are guarded: the static constructor if there is a field to enter a type into,
and the lookup. -/
def guarded (g : TypeLookupGuard) (m : Module) : List Token :=
  match g.lookupType? m with
  | none => []
  | some type =>
    match staticConstructor? m type with
    | none => []
    | some constructor =>
      ((g.knownTypes? m type).map fun _ => constructor).toList ++ (g.lookup? m type).toList

/-- The edits that guard a method: the static constructor enters a type, and the lookup refuses a
name. -/
def Guards (g : TypeLookupGuard) (m : Module) (t : Token) (edit : MethodEdit Bool) : Prop :=
  ∃ type, g.lookupType? m = some type ∧
    ((∃ field, staticConstructor? m type = some t ∧ g.knownTypes? m type = some field ∧
        edit = fun returnType => Draft.transact returnType id (g.seed field)) ∨
      g.lookup? m type = some t ∧
        edit = fun returnType => Draft.transact returnType id g.refuse)

/-- With a static constructor the table is seeded first and the lookup guarded then, each if it is
there. -/
theorem run_eq {g : TypeLookupGuard} {m : Module} {type : TypeDef} {constructor : Token}
    (htype : g.lookupType? m = some type)
    (hconstructor : staticConstructor? m type = some constructor) :
    g.run m = EStateM.bind
      ((g.knownTypes? m type).elim (pure .nothing) fun field =>
        guardMethod constructor (g.seed field) .nothing)
      (fun report => (g.lookup? m type).elim (pure report) fun lookup =>
        guardMethod lookup g.refuse report) m := by
  unfold run
  rw [← lookupType?, htype]
  simp only [hconstructor]
  unfold EStateM.bind
  cases g.knownTypes? m type with
  | none => cases g.lookup? m type <;> rfl
  | some field =>
    simp only [Option.elim_some]
    cases guardMethod constructor (g.seed field) .nothing m with
    | error e m₁ => rfl
    | ok report m₁ => cases g.lookup? m type <;> rfl

/-- The lookup is guarded if it is there, also after a seeding that failed. -/
theorem exists_tallied_lookup (g : TypeLookupGuard) {m : Module} {type : TypeDef}
    (htype : g.lookupType? m = some type) (report : Report) (m₁ : Module) :
    ∃ report' m' tries, ((g.lookup? m type).elim (pure report) fun lookup =>
        guardMethod lookup g.refuse report : Edit Module Report) m₁ = .ok report' m' ∧
      Tallied (g.Guards m) m₁ (g.lookup? m type).toList report.failedMethods
        report'.failedMethods tries m' := by
  cases hlookup : g.lookup? m type with
  | none => exact ⟨report, m₁, [], rfl, .nil _ m₁ _⟩
  | some lookup =>
    obtain ⟨report', m₂, failed, hresult, htried, hfailures⟩ :=
      exists_tried_guardMethod g.confined_refuse lookup report m₁
    exact ⟨report', m₂, [(lookup, failed)], hresult, (Tallied.nil _ m₂ _).cons (.refl _)
      ⟨type, htype, .inr ⟨hlookup, rfl⟩⟩ htried hfailures⟩

/-- The guards end with their report in every module. -/
theorem exists_withstood_run (g : TypeLookupGuard) (m : Module) :
    ∃ report m' tries, g.run m = .ok report m' ∧
      Withstood (g.Guards m) m m' (g.guarded m) report.failedMethods tries := by
  have nothing : Withstood (g.Guards m) m m [] Report.nothing.failedMethods [] :=
    (Tallied.nil _ m _).withstood
  unfold guarded
  cases htype : g.lookupType? m with
  | none =>
    refine ⟨.nothing, m, [], ?_, nothing⟩
    unfold run
    rw [← lookupType?, htype]
  | some type =>
    simp only
    cases hconstructor : staticConstructor? m type with
    | none =>
      refine ⟨.nothing, m, [], ?_, nothing⟩
      unfold run
      rw [← lookupType?, htype]
      simp only [hconstructor]
    | some constructor =>
      simp only [run_eq htype hconstructor]
      have hlookup := g.exists_tallied_lookup htype
      cases hfield : g.knownTypes? m type with
      | none =>
        obtain ⟨report, m', tries, hresult, htallied⟩ := hlookup .nothing m
        exact ⟨report, m', tries, hresult, htallied.withstood⟩
      | some field =>
        obtain ⟨report₁, m₁, failed, hseeded, htried, hfailures⟩ :=
          exists_tried_guardMethod (g.confined_seed field) constructor .nothing m
        obtain ⟨report, m', tries, hresult, htallied⟩ := hlookup report₁ m₁
        have hseeds : g.Guards m constructor fun returnType =>
            Draft.transact returnType id (g.seed field) :=
          ⟨type, htype, .inl ⟨field, hconstructor, hfield, rfl⟩⟩
        refine ⟨report, m', (constructor, failed) :: tries, ?_,
          (htallied.cons (.refl _) hseeds htried hfailures).withstood⟩
        simp only [EStateM.bind, Option.elim_some, hseeded]
        exact hresult

end TypeLookupGuard

/-! ## All of them -/

namespace Pass

/-- Whatever the bodies of a module hold, a redirection comes to its end if its replacement is
imported and named by its token, as any is that is found while the table has room. So does a pass
over the fields that follows no record, if its generic accessors are found and the module defines
the tracked type; without the type it ends before it looks at any method. Accessors are forwarded
unless the tracked type or a backend is not found, and the guards of a lookup come to their end in
every module whose types have full names, as those of a built one do. Each picked method has its
try, what fails is counted and leaves its method as it was, and in a built module whose rows fit
into tokens no method is tried twice. -/
theorem no_defect_ends :
    (∀ (r : CallRedirection) (helpers : Resolver) (m : Module),
      (∀ (token : Token) (refs : ReferenceTable) (replacement : MethodRef),
        helpers.importMethod r.replacementModule r.replacement m.references = .ok token refs →
        refs.method token = .ok replacement →
        ∃ report m' tries, r.run helpers m = .ok report m' ∧
          Withstood (fun _ edit => edit = (r.rule token replacement).rewrite) m m'
            (CallRedirection.candidates m) report.failedMethods tries) ∧
      (∀ replacement, helpers.resolve r.replacementModule r.replacement = .ok replacement →
        m.references.size + 1 < 0x1000000 → ∃ token refs,
          helpers.importMethod r.replacementModule r.replacement m.references =
            .ok token refs ∧ refs.method token = .ok replacement) ∧
      (m.Built → m.FitsTokens → (CallRedirection.candidates m).Nodup)) ∧
    (∀ (f : FieldAccess) (env : Environment) (s : Session) (getter setter : MethodRef),
      env.helpers.resolve f.genericModule (f.genericAccessor f.genericGetter 2) = .ok getter →
      env.helpers.resolve f.genericModule (f.genericAccessor f.genericSetter 3) = .ok setter →
      env.record? s.files FieldAccess.passName s.module.name = .ok none →
      (s.module.findType? f.trackedType = none →
        f.run env s = .error (.typeNotFound f.trackedType) s) ∧
      (∀ tracked, s.module.findType? f.trackedType = some tracked →
        ∃ routing report s' tries,
          FieldRouting.ofModule f s.module env.helpers = .ok routing ∧
          f.run env s = .ok report s' ∧
          Withstood (fun _ edit => edit = routing.rule.rewrite) s.module s'.module
            ((f.candidates s.module).map Prod.snd) report.failedMethods tries) ∧
      (s.module.Built → s.module.FitsTokens → ((f.candidates s.module).map Prod.snd).Nodup)) ∧
    (∀ (f : AccessorForwarding) (helpers : Resolver) (m : Module),
      ((∃ report m' tries, f.run helpers m = .ok report m' ∧
          Withstood (f.Forwards helpers m) m m'
            (AccessorForwarding.accessors.filterMap (f.accessor? m)) report.failedMethods tries) ∨
        (f.run helpers m = .error (.typeNotFound f.trackedType) m ∧
          m.findType? f.trackedType = none) ∨
        ∃ e m' name, f.run helpers m = .error e m' ∧ name ∈ AccessorForwarding.accessors ∧
          f.Lacks helpers m name e) ∧
      (AccessorForwarding.accessors.filterMap (f.accessor? m)).Nodup) ∧
    (∀ (g : TypeLookupGuard) (m : Module),
      (m.Named → ∃ report m' tries, g.run m = .ok report m' ∧
        Withstood (g.Guards m) m m' (g.guarded m) report.failedMethods tries) ∧
      (m.Built → m.FitsTokens → m.Named)) := by
  refine ⟨?_, ?_, ?_, fun g m => ⟨fun _ => g.exists_withstood_run m, fun hm hfits =>
    hm.named hfits.types⟩⟩
  · intro r helpers m
    exact ⟨fun token refs replacement => CallRedirection.exists_withstood_run,
      fun replacement => CallRedirection.exists_import,
      fun hm hfits => CallRedirection.nodup_candidates hm hfits.types hfits.methods⟩
  · intro f env s getter setter hgetter hsetter hrecord
    refine ⟨FieldAccess.run_of_untracked, fun tracked htracked => ?_, fun hm hfits =>
      FieldAccess.nodup_candidates hm.linked hfits⟩
    obtain ⟨routing, hrouting⟩ := FieldAccess.exists_routing htracked hgetter hsetter
    obtain ⟨report, s', tries, hrun, hwithstood⟩ :=
      FieldAccess.exists_withstood_run hrouting hrecord
    exact ⟨routing, report, s', tries, hrouting, hrun, hwithstood⟩
  · intro f helpers m
    exact ⟨f.withstood_run helpers m, f.nodup_accessors m⟩

/-- One method loads the score. The other one stores to it from an empty stack. -/
def defective : Session where
  module := FieldAccess.visitorsWith [.of .stfld (.token ⟨0x0A000001⟩), .plain .ret]
  files := FieldAccess.firstSession.files

/-- One method was patched, with one replacement, and another one failed. -/
def oneFailed : Report :=
  { Report.nothing with methodsPatched := 1, replaced := 1, failedMethods := 1 }

/-- In either module one method fails and the other one is patched. -/
theorem no_defect_ends_defective :
    (∃ m' tries, CallRedirection.getTypes.run Redirecting.safeHelpers Redirecting.plugins =
        .ok oneFailed m' ∧
      Withstood (fun _ edit => edit = (Redirecting.safely.pass.rule Redirecting.safely.token
          Redirecting.safely.replacement).rewrite) Redirecting.plugins m'
        (CallRedirection.candidates Redirecting.plugins) 1 tries) ∧
    ∃ (routing : FieldRouting) (s' : Session) (tries : List (Token × Bool)),
      FieldAccess.standard.run FieldAccess.recording defective =
        .ok oneFailed s' ∧
      Withstood (fun _ edit => edit = routing.rule.rewrite) defective.module s'.module
        ((FieldAccess.standard.candidates defective.module).map Prod.snd) 1 tries := by
  obtain ⟨hcalls, hfields, -⟩ := no_defect_ends
  constructor
  · have hcounts : EStateM.run' (CallRedirection.getTypes.run Redirecting.safeHelpers)
        Redirecting.plugins = some oneFailed := by decide +kernel
    obtain ⟨hrun, -⟩ := hcalls Redirecting.safely.pass Redirecting.safeHelpers
      Redirecting.plugins
    obtain ⟨report, m', tries, hrun, hwithstood⟩ :=
      hrun _ _ _ Redirecting.importedFrom_safeHelpers Redirecting.safely.named
    obtain ⟨rfl, -⟩ := EStateM.Result.ok.inj (hrun.symm.trans (Edit.eq_ok_of_run' hcounts))
    exact ⟨m', tries, hrun, hwithstood⟩
  · have hcounts : EStateM.run' (FieldAccess.standard.run FieldAccess.recording) defective =
        some oneFailed := by decide +kernel
    obtain ⟨tracked, htracked⟩ := Option.isSome_iff_exists.mp
      (show (defective.module.findType? "PlayerData").isSome = true by decide +kernel)
    obtain ⟨-, hrun, -⟩ := hfields FieldAccess.standard FieldAccess.recording defective
      FieldAccess.savedRouting.accessors.genericGetter
      FieldAccess.savedRouting.accessors.genericSetter (by decide +kernel) (by decide +kernel)
      (by decide +kernel)
    obtain ⟨routing, report, s', tries, -, hrun, hwithstood⟩ := hrun tracked htracked
    obtain ⟨rfl, -⟩ := EStateM.Result.ok.inj (hrun.symm.trans (Edit.eq_ok_of_run' hcounts))
    exact ⟨routing, s', tries, hrun, hwithstood⟩

/-- A module without any type. -/
def untracked : Session := ⟨.empty "Plugins", FieldAccess.firstSession.files⟩

/-- Generic accessors that are found are not enough for a pass over the fields. -/
theorem not_all_end_well : ¬ ∀ (f : FieldAccess) (env : Environment) (s : Session)
    (getter setter : MethodRef), s.module.Built →
    env.helpers.resolve f.genericModule (f.genericAccessor f.genericGetter 2) = .ok getter →
    env.helpers.resolve f.genericModule (f.genericAccessor f.genericSetter 3) = .ok setter →
    env.record? s.files FieldAccess.passName s.module.name = .ok none →
    ∃ report s', f.run env s = .ok report s' := by
  intro h
  obtain ⟨report, s', hrun⟩ := h FieldAccess.standard FieldAccess.recording untracked
    FieldAccess.savedRouting.accessors.genericGetter
    FieldAccess.savedRouting.accessors.genericSetter (.empty "Plugins") (by decide +kernel)
    (by decide +kernel) (by decide +kernel)
  have hnone : untracked.module.findType? FieldAccess.standard.trackedType = none := rfl
  rw [FieldAccess.run_of_untracked hnone] at hrun
  cases hrun

end Pass

end CilWeave
