import CilWeave.Proofs.Pass.ReflectiveGetter.Routing

/-
Whether a routed read reads the same.

Where nothing refers to the instructions of the window behind its first one, the getter is called
with the object that was asked about and with the name of the field that was asked for, whichever
path leads there, and nothing else of the method changes (`Reading.Sound`). The search for the
window does not look at what refers to its instructions. Since the two loads keep their handles when
they change places, a branch to the second of them finds the wrong one of the two values on the
stack, and the getter is called with a description in place of the object (`not_always_sound`).
-/

namespace CilWeave.ReflectiveGetter

open Execution

/-! ## What is said about a read -/

namespace Reading

/-- The getter by name answers what reflection answers. -/
def AnswersAlike {δ ρ : Type} (r : Reading) (world : World δ ρ) (refs : ReferenceTable)
    (returnType : TypeSig) : Prop :=
  ∀ description object rest (m : Memory δ ρ) stack' m',
    m.read (.ofLocal r.field.toNat) = some description →
    m.read (.ofArgument r.object.toNat) = some object →
    (DoesEach world refs returnType [r.ask, r.unboxing] (object :: description :: rest) m
        stack' m' ↔
      DoesEach world refs returnType [.callvirt r.name, .call r.getVariable]
        (description :: object :: rest) m stack' m')

/-- Wherever a body comes to the getter, it calls it with the object, and with the name that the
description answered, that the loads of the read find. -/
def GetsByName (r : Reading) (b' : MethodBody) (refs : ReferenceTable) (returnType : TypeSig) :
    Prop :=
  ∀ {δ ρ : Type} (world : World δ ρ) arguments heap start stack m resume,
    Starts world b' arguments heap start →
    Steps world b' refs returnType start ⟨r.window.unbox, stack, m, resume⟩ →
    ∃ description object name rest m₀, stack = name :: object :: rest ∧
      m₀.read (.ofLocal r.field.toNat) = some description ∧
      m₀.read (.ofArgument r.object.toNat) = some object ∧
      Does world refs returnType (.callvirt r.name) (description :: object :: rest) m₀
        (name :: object :: rest) m

/-- On every path the read by name reads what the read by reflection read. -/
structure Sound (r : Reading) (b b' : MethodBody) (refs : ReferenceTable) (returnType : TypeSig) :
    Prop where
  /-- A value is asked for with the object and the description that were loaded. -/
  asks : ∀ {δ ρ : Type} (world : World δ ρ) arguments heap start stack m resume,
    Starts world b arguments heap start →
    Steps world b refs returnType start ⟨r.window.getValue, stack, m, resume⟩ →
    ∃ description object rest, stack = object :: description :: rest ∧
      m.read (.ofLocal r.field.toNat) = some description ∧
      m.read (.ofArgument r.object.toNat) = some object ∧
      Steps world b refs returnType start ⟨r.window.loadField, rest, m, resume⟩
  /-- With what the same loads find the getter is called. -/
  gets : r.GetsByName b' refs returnType
  /-- From the first load on, the getter is come to as soon as the description answers a name. -/
  comes : ∀ {δ ρ : Type} (world : World δ ρ) description object name rest m m' resume,
    m.read (.ofLocal r.field.toNat) = some description →
    m.read (.ofArgument r.object.toNat) = some object →
    Does world refs returnType (.callvirt r.name) (description :: object :: rest) m
      (name :: object :: rest) m' →
    Steps world b' refs returnType ⟨r.window.loadField, rest, m, resume⟩
      ⟨r.window.unbox, name :: object :: rest, m', resume⟩
  /-- The getter leaves one value. -/
  leaves : r.value.isVoid = false →
    ∀ {δ ρ : Type} (world : World δ ρ) name object rest m stack' m',
      Does world refs returnType (.call r.getVariable) (name :: object :: rest) m stack' m' →
      ∃ v, stack' = v :: rest
  /-- Outside of the window every step is as it was. -/
  others : ∀ {δ ρ : Type} (world : World δ ρ) s s', s.here ≠ r.window.loadField →
    s.here ∉ r.window.inner →
    (Step world b' refs returnType s s' ↔ Step world b refs returnType s s')
  starts : ∀ {δ ρ : Type} (world : World δ ρ) arguments heap start,
    Starts world b' arguments heap start ↔ Starts world b arguments heap start
  /-- So are whole runs, if the getter answers what reflection answers. -/
  runs : ∀ {δ ρ : Type} (world : World δ ρ) arguments heap start s,
    r.AnswersAlike world refs returnType → Starts world b arguments heap start →
    s.here ∉ r.window.inner →
    (Steps world b' refs returnType start s ↔ Steps world b refs returnType start s)

end Reading

variable {refs later : ReferenceTable} {returnType : TypeSig} {b b' : MethodBody} {r : Reading}
  {getter : MethodRef} {δ ρ : Type} {world : World δ ρ}

/-! ## Two bodies that differ in a read -/

/-- What the window did and what it does are alike, if the getter answers what reflection does. -/
theorem Reading.AnswersAlike.doesEach_iff (halike : r.AnswersAlike world refs returnType)
    {stack stack' : List (Value δ)} {m m' : Memory δ ρ} :
    DoesEach world refs returnType [.ldloc r.field, .ldarg r.object, r.ask, r.unboxing]
        stack m stack' m' ↔
      DoesEach world refs returnType
        [.ldarg r.object, .ldloc r.field, .callvirt r.name, .call r.getVariable]
        stack m stack' m' := by
  constructor
  · rintro (_ | ⟨hfield, _ | ⟨hobject, hrest⟩⟩)
    obtain ⟨description, hdescription, rfl, rfl⟩ := (does_load_iff rfl).mp hfield
    obtain ⟨object, hread, rfl, rfl⟩ := (does_load_iff rfl).mp hobject
    exact .cons (.load rfl hread) (.cons (.load rfl hdescription)
      ((halike _ _ _ _ _ _ hdescription hread).mp hrest))
  · rintro (_ | ⟨hobject, _ | ⟨hfield, hrest⟩⟩)
    obtain ⟨object, hread, rfl, rfl⟩ := (does_load_iff rfl).mp hobject
    obtain ⟨description, hdescription, rfl, rfl⟩ := (does_load_iff rfl).mp hfield
    exact .cons (.load rfl hdescription) (.cons (.load rfl hread)
      ((halike _ _ _ _ _ _ hdescription hread).mpr hrest))

namespace Reading.Routes

theorem agree (h : r.Routes getter refs later b b') : r.window.Agree b b' where
  outside id hne hinner := by
    refine ⟨h.others id hne hinner, InstructionList.next?_congr h.ids id, fun i _ t _ => ?_⟩
    unfold MethodBody.finallyBetween MethodBody.protects
    rw [h.handlers, h.ids]
  behind := InstructionList.next?_congr h.ids _

theorem refersTo (h : r.Routes getter refs later b b') {x : InstrId} (hx : b'.RefersTo x) :
    b.RefersTo x := by
  rcases hx with ⟨id, i, hi, hjumps, hx⟩ | ⟨handler, hhandler, hx⟩
  · -- No instruction of the window jumps.
    have inWindow : ∀ {j}, b'.fetch? id = some j → j ∈ [Instruction.ldarg r.object,
        .ldloc r.field, .callvirt r.name, .call r.getVariable] → False := by
      intro j hj hmem
      rw [hi] at hj
      cases hj
      rcases h.after.goesOn i hmem with hflow | hflow <;> rw [hflow] at hjumps <;> cases hjumps
    by_cases hfirst : id = r.window.loadField
    · exact (inWindow (hfirst ▸ h.after.loadField) (by simp)).elim
    by_cases hinner : id ∈ r.window.inner
    · simp only [Window.inner, List.mem_cons, List.not_mem_nil, or_false] at hinner
      rcases hinner with rfl | rfl | rfl
      · exact (inWindow h.after.loadObject (by simp)).elim
      · exact (inWindow h.after.getValue (by simp)).elim
      · exact (inWindow h.after.unbox (by simp)).elim
    · exact .inl ⟨id, i, (h.others id hfirst hinner).symm.trans hi, hjumps, hx⟩
  · exact .inr ⟨handler, h.handlers ▸ hhandler, hx⟩

theorem starts_iff (h : r.Routes getter refs later b b') {arguments : List (Value δ)}
    {heap : Heap δ ρ} {start : State δ ρ} :
    Starts world b' arguments heap start ↔ Starts world b arguments heap start := by
  have hfirst : b'.code.first? = b.code.first? := by
    rw [InstructionList.first?_eq, InstructionList.first?_eq, h.ids]
  unfold Starts
  rw [hfirst, h.locals]

theorem undisturbed (h : r.Routes getter refs later b b') (hquiet : r.window.Undisturbed b) :
    r.window.Undisturbed b' := fun id hid hrefers => hquiet id hid (h.refersTo hrefers)

theorem effect_name (h : r.Routes getter refs later b b') :
    (Instruction.callvirt r.name).stackEffect later returnType = .ok (1, 1) :=
  Instruction.stackEffect_of_call rfl (Instruction.calledMethod_of_method rfl h.named)

theorem effect_getVariable (h : r.Routes getter refs later b b')
    (hgetter : getter.signature = ⟨false, .mvar 0, [.object, .string], 1⟩)
    (hvalue : r.value.isVoid = false) :
    (Instruction.call r.getVariable).stackEffect later returnType = .ok (2, 1) := by
  have heffect : (Instruction.call r.getVariable).stackEffect later returnType = _ :=
    Instruction.stackEffect_of_call rfl (Instruction.calledMethod_of_method rfl h.gets)
  rw [heffect]
  unfold MethodRef.pops MethodRef.pushes MethodRef.returnType MethodRef.instantiate
  simp only [hgetter]
  rw [show (TypeSig.mvar 0).instantiate [r.value] = r.value from rfl, hvalue]
  rfl

/-- Without references into its window, a routed read is sound. -/
theorem sound (h : r.Routes getter refs later b b')
    (hgetter : getter.signature = ⟨false, .mvar 0, [.object, .string], 1⟩)
    (hquiet : r.window.Undisturbed b) : r.Sound b b' later returnType where
  asks world arguments heap start stack m resume hstart hsteps := by
    obtain ⟨stack₀, m₀, stack₁, m₁, hsteps₀, hfield, hobject⟩ :=
      h.before.came hquiet hstart hsteps
    obtain ⟨description, hdescription, rfl, rfl⟩ := (does_load_iff rfl).mp hfield
    obtain ⟨object, hread, rfl, rfl⟩ := (does_load_iff rfl).mp hobject
    exact ⟨description, object, stack₀, rfl, hdescription, hread, hsteps₀⟩
  gets := by
    intro _ _ world arguments heap start stack m resume hstart hsteps
    have hquiet' := h.undisturbed hquiet
    obtain ⟨stack₂, m₂, hsteps₂, hname⟩ := hsteps.came_from hstart h.after.getValue (.inr rfl)
      h.after.fourth (hquiet' _ (by simp [Window.inner]))
    obtain ⟨stack₀, m₀, stack₁, m₁, -, hobject, hfield⟩ := h.after.came hquiet' hstart hsteps₂
    obtain ⟨object, hread, rfl, rfl⟩ := (does_load_iff rfl).mp hobject
    obtain ⟨description, hdescription, rfl, rfl⟩ := (does_load_iff rfl).mp hfield
    -- Of the values on the stack only the description is taken for its name.
    obtain ⟨args, results, rest, hstack, rfl, hargs, hresults⟩ :=
      hname.frame_of_effect h.effect_name
    obtain ⟨arg, rfl⟩ := List.length_eq_one_iff.mp hargs
    obtain ⟨name, rfl⟩ := List.length_eq_one_iff.mp hresults
    cases hstack
    exact ⟨description, object, name, stack₀, _, rfl, hdescription, hread, hname⟩
  comes world description object name rest m m' resume hdescription hread hname := by
    have hfront : Stands b' r.window.loadField
        [.ldarg r.object, .ldloc r.field, .callvirt r.name] r.window.unbox :=
      .cons h.after.loadField h.after.second (.cons h.after.loadObject h.after.third
        (.cons h.after.getValue h.after.fourth (.nil _)))
    exact hfront.steps resume (.cons (.load rfl hread) (.cons (.load rfl hdescription)
      (.cons hname (.nil _ _))))
  leaves hvalue _ _ world name object rest m stack' m' hdoes := by
    obtain ⟨args, results, rest', hstack, rfl, hargs, hresults⟩ :=
      hdoes.frame_of_effect (h.effect_getVariable hgetter hvalue)
    obtain ⟨a, a', rfl⟩ := List.length_eq_two.mp hargs
    obtain ⟨v, rfl⟩ := List.length_eq_one_iff.mp hresults
    cases hstack
    exact ⟨v, rfl⟩
  others world s s' hfirst hinner := (h.agree.outside _ hfirst hinner).step_iff
  starts world arguments heap start := h.starts_iff
  runs world arguments heap start s halike hstart hs := by
    have hresume : ∀ {P : InstrId → Prop}, ∀ x ∈ start.resume, P x := by
      obtain ⟨id, -, rfl⟩ := hstart
      exact fun x hx => absurd hx List.not_mem_nil
    have hstart' := h.starts_iff.mpr hstart
    constructor
    · intro hsteps
      exact h.agree.symm.steps h.after h.before (h.undisturbed hquiet)
        (fun _ _ _ _ => halike.doesEach_iff.mpr) hsteps hs
        (.outside (h.after.not_inner_of_starts hstart')) hresume
    · intro hsteps
      exact h.agree.steps h.before h.after hquiet
        (fun _ _ _ _ => halike.doesEach_iff.mp) hsteps hs
        (.outside (h.before.not_inner_of_starts hstart)) hresume

end Reading.Routes

/-! ## The pass -/

variable {m m' : Module} {type : TypeDef} {t : Token} {method : MethodDef} {body : MethodBody}
  {report : Report}

/-- A pass that ends with its report has edited the method that collects values, and no other. -/
theorem run_eq_ok (htype : m.findType? extensionsType = some type)
    (hcollector : collector? m type = some t) (hmethod : m.methodDef? t = some method)
    (hbody : method.body = some body) (hgetter : getter? m = some getter)
    (hrun : run m = .ok report m') :
    ∃ a d, Draft.transact method.signature.returnType id (route getter (m.describeMethod t))
        ⟨body, m.references, ()⟩ = .ok a d ∧ m' = m.commit t method d := by
  unfold run at hrun
  simp only [htype, hcollector, hgetter] at hrun
  rw [Edit.bind_of_ok (Module.methodAt_of_some hmethod)] at hrun
  obtain ⟨a, m₁, hedit, hrun⟩ := Edit.bind_eq_ok hrun
  cases hrun
  obtain ⟨d, htransact, rfl⟩ := Module.editMethod_eq_ok hbody hedit
  exact ⟨a, d, htransact, rfl⟩

/-- A pass that ends with its report routes one read of the method that collects values, and leaves
everything else alone. The read is sound on every path, if no branch and no handler leads into its
window behind the first instruction. The getter is static, takes an object and a name, and answers
what it is instantiated with; the references are no more than tokens can tell apart. -/
theorem run_sound (htype : m.findType? extensionsType = some type)
    (hcollector : collector? m type = some t) (hmethod : m.methodDef? t = some method)
    (hbody : method.body = some body) (hgetter : getter? m = some getter)
    (hsignature : getter.signature = ⟨false, .mvar 0, [.object, .string], 1⟩)
    (hrun : run m = .ok report m') (hfits : m'.references.FitsTokens) :
    ∃ (body' : MethodBody) (r : Reading),
      m'.methodDef? t = some { method with body := some body' } ∧
      (∀ t', t' ≠ t → m'.methodDef? t' = m.methodDef? t') ∧
      r.Routes getter m.references m'.references body body' ∧
      (getter.instantiate [r.value]).returnType = r.value ∧
      (∀ {δ ρ : Type} (world : World δ ρ) s s',
        Steps world body m.references method.signature.returnType s s' →
        Steps world body m'.references method.signature.returnType s s') ∧
      (r.window.Undisturbed body →
        r.Sound body body' m'.references method.signature.returnType) := by
  obtain ⟨a, d, htransact, rfl⟩ := run_eq_ok htype hcollector hmethod hbody hgetter hrun
  obtain ⟨r, hr⟩ := exists_routes htransact hfits
  refine ⟨d.body, r, Module.methodDef?_commit hmethod,
    fun t' hne => Module.methodDef?_commit_of_ne hne method d, hr, ?_,
    fun world s s' hsteps => hsteps.of_growsTo hr.grows, hr.sound hsignature⟩
  unfold MethodRef.returnType MethodRef.instantiate
  simp only [hsignature]
  rfl

/-! ## Collections of values -/

/-- The method that answers the value of a described field. -/
def askValue : MethodRef := .plain fieldInfo "GetValue" (.forInstance .object [.object])

/-- A body that has two descriptions of fields in its locals. -/
def collectingBody (code : List Instruction) : MethodBody :=
  { MethodBody.empty with
    code := (InstructionList.ofList code).toOption.getD .empty
    locals := #[fieldInfo, fieldInfo] }

def collecting (code : List Instruction) : MethodDef :=
  ⟨⟨0x06000001⟩, ⟨0x02000001⟩, "GetVariables", ⟨0x16⟩,
    .forStatic .int32 [.object, .genericInst (.ofClass "System.Func`2") [fieldInfo, .boolean]],
    some (collectingBody code)⟩

def getVariable : MethodDef :=
  ⟨⟨0x06000002⟩, ⟨0x02000001⟩, "GetVariable", ⟨0x16⟩, ⟨false, .mvar 0, [.object, .string], 1⟩, none⟩

def extensions : TypeDef :=
  ⟨⟨0x02000001⟩, "TeamCherry.SharedUtils", "VariableExtensions", .isPublic, none, #[], #[],
    #[⟨0x06000001⟩, ⟨0x06000002⟩]⟩

/-- A module with both methods. -/
def sharedUtils (code : List Instruction) : Module where
  name := "TeamCherry.SharedUtils"
  types := #[extensions]
  fields := #[]
  methods := #[collecting code, getVariable]
  references := ⟨#[.method askValue], by decide⟩

/-- `return (int) field.GetValue(target);` -/
def oneRead : List Instruction :=
  [.ldloc 0, .ldarg 0, .callvirt ⟨0x0A000001⟩, .of .unboxAny (.type .int32), .plain .ret]

/-- A straight read is sound. -/
theorem run_sound_oneRead : ∃ (report : Report) (m' : Module) (body' : MethodBody) (r : Reading),
    run (sharedUtils oneRead) = .ok report m' ∧
      m'.methodDef? ⟨0x06000001⟩ = some { collecting oneRead with body := some body' } ∧
      r.window.Undisturbed (collectingBody oneRead) ∧
      r.Sound (collectingBody oneRead) body' m'.references .int32 := by
  have hcounts : EStateM.run' run (sharedUtils oneRead) = some (Report.nothing.patched 1 0) := by
    decide +kernel
  have hfits : (run.after (sharedUtils oneRead)).references.size < 0x1000000 := by decide +kernel
  have hrun := Edit.eq_ok_of_run' hcounts
  have hgetter : getter? (sharedUtils oneRead) = some (.plain (.ofClass extensionsType)
      "GetVariable" getVariable.signature) := by decide +kernel
  obtain ⟨body', r, hbody', -, -, -, -, hsound⟩ :=
    run_sound (m := sharedUtils oneRead) (t := ⟨0x06000001⟩) rfl rfl rfl rfl
      hgetter rfl hrun hfits
  have hquiet : r.window.Undisturbed (collectingBody oneRead) := by
    intro id _ hrefers
    have hmem := hrefers.mem_referenced
    have hnone : (collectingBody oneRead).referenced = [] := by decide +kernel
    rw [hnone] at hmem
    cases hmem
  exact ⟨_, _, body', r, hrun, hbody', hquiet, hsound hquiet⟩

/-- `return (int) (second ? fields[1] : fields[0]).GetValue(target);` -/
def chosenRead : List Instruction :=
  [.ldarg 1, .branch .brtrue ⟨4⟩, .ldloc 1, .branch .br ⟨5⟩, .ldloc 0, .ldarg 0,
    .callvirt ⟨0x0A000001⟩, .of .unboxAny (.type .int32), .plain .ret]

theorem reading_chosenRead {b' : MethodBody}
    (h : r.Routes getter refs later (collectingBody chosenRead) b') :
    r.window = ⟨⟨4⟩, ⟨5⟩, ⟨6⟩, ⟨7⟩⟩ ∧ r.field = 0 ∧ r.object = 0 := by
  have hcallvirt : r.ask.op = .callvirt := by
    have hasks := h.asks
    unfold asksForValue at hasks
    exact eq_of_beq (Bool.and_eq_true_iff.mp hasks).1
  have hgetValue : r.window.getValue = ⟨6⟩ := by
    obtain ⟨i, hi, hsaid⟩ := exists_get?_of_fetch? h.before.getValue
    have hmem : r.window.getValue ∈ (collectingBody chosenRead).code.ids.filter fun id =>
        ((collectingBody chosenRead).fetch? id).any (·.op == .callvirt) := by
      refine List.mem_filter.mpr ⟨InstructionList.mem_ids_of_get? hi, ?_⟩
      rw [h.before.getValue, Option.any_some, hcallvirt]
      rfl
    have honly : ((collectingBody chosenRead).code.ids.filter fun id =>
        ((collectingBody chosenRead).fetch? id).any (·.op == .callvirt)) = [⟨6⟩] := by
      decide +kernel
    rw [honly] at hmem
    exact List.mem_singleton.mp hmem
  have hloadObject : r.window.loadObject = ⟨5⟩ :=
    InstructionList.next?_inj (hgetValue ▸ h.before.third) (by decide +kernel)
  have hloadField : r.window.loadField = ⟨4⟩ :=
    InstructionList.next?_inj (hloadObject ▸ h.before.second) (by decide +kernel)
  have hunbox : r.window.unbox = ⟨7⟩ := by
    have hnext := h.before.fourth
    rw [hgetValue, show (collectingBody chosenRead).code.next? ⟨6⟩ = some ⟨7⟩ by decide +kernel]
      at hnext
    exact (Option.some.inj hnext).symm
  refine ⟨?_, ?_, ?_⟩
  · cases hw : r.window
    simp_all
  · have hfield := h.before.loadField
    rw [hloadField] at hfield
    have hsame : Instruction.ldloc 0 = .ldloc r.field := Option.some.inj hfield
    exact (Operand.local.inj (congrArg Instruction.operand hsame)).symm
  · have hobject := h.before.loadObject
    rw [hloadObject] at hobject
    have hsame : Instruction.ldarg 0 = .ldarg r.object := Option.some.inj hobject
    exact (Operand.argument.inj (congrArg Instruction.operand hsame)).symm

/-- A world in which no branch is taken, and one description answers its name. -/
def lookingWorld : World Unit Unit where
  access? _ := none
  access_effect := access_effect_of_none
  updates _ _ _ _ := False
  performs op _ args _ heap results contents' heap' :=
    op = .callvirt ∧ args = [.object 1] ∧ results = [.string "score"] ∧ contents' = [] ∧
      heap' = heap
  decides _ _ taken := taken = none
  initial _ := .object 1

/-- The call of the method for an object, with nothing to choose by. -/
def lookingCall : Memory Unit Unit :=
  ⟨[.object 7, .null], [.object 1, .object 1], ⟨fun _ _ => none, ()⟩⟩

theorem does_name (h : r.Routes getter refs later b b') (rest : List (Value Unit))
    (m : Memory Unit Unit) :
    Does lookingWorld later returnType (.callvirt r.name) (.object 1 :: rest) m
      (.string "score" :: rest) m := by
  have hperforms : lookingWorld.performs .callvirt (.member (.method getName)) [.object 1] []
      m.heap [.string "score"] [] m.heap := ⟨rfl, rfl, rfl, rfl, rfl⟩
  show Does _ _ _ _ ([.object 1] ++ rest) m ([.string "score"] ++ rest) m
  exact .perform rfl (fun _ _ _ => ⟨rfl, fun _ _ => nofun⟩) nofun h.effect_name
    (meaning?_of_get (ReferenceTable.method_iff.mp h.named)) rfl hperforms rfl rfl

theorem arguments_of_does_name (h : r.Routes getter refs later b b')
    {stack stack' : List (Value Unit)} {m m' : Memory Unit Unit}
    (hdoes : Does lookingWorld later returnType (.callvirt r.name) stack m stack' m') :
    m'.arguments = m.arguments := by
  have hargs : ∃ rest, stack = [.object 1] ++ rest := by
    cases hdoes with
    | load hl | store hl | address hl => cases hl
    | literal hop | copy hop | loadField hop | storeField hop | addressField hop => cases hop
    | get _ _ haccess | set _ _ haccess => cases haccess
    | update _ _ _ _ hupdates => exact hupdates.elim
    | perform _ _ _ _ _ _ hperforms => exact ⟨_, by rw [hperforms.2.1]⟩
  obtain ⟨rest, rfl⟩ := hargs
  rw [hdoes.frame_of_call rfl h.effect_name rfl]

/-- With nothing to choose by, the routed method calls the getter with the second description. -/
theorem steps_chosenRead {b' : MethodBody}
    (h : r.Routes getter refs later (collectingBody chosenRead) b') :
    Steps lookingWorld b' later .int32 ⟨⟨0⟩, [], lookingCall, []⟩
      ⟨r.window.unbox, [.string "score", .object 1], lookingCall, []⟩ := by
  obtain ⟨hwindow, hfield, hobject⟩ := reading_chosenRead h
  -- Up to the window the method does what it did.
  have step : ∀ {s s' : State Unit Unit}, s.here.index < 4 →
      Step lookingWorld (collectingBody chosenRead) later .int32 s s' →
      Step lookingWorld b' later .int32 s s' := by
    intro s s' hlt hstep
    have hne : ∀ {n : UInt32}, 4 ≤ n → s.here ≠ ⟨n⟩ := by
      rintro n hn heq
      rw [heq] at hlt
      exact absurd hlt (UInt32.not_lt.mpr hn)
    refine hstep.of_agrees (h.agree.outside _ ?_ ?_)
    · rw [hwindow]
      exact hne (by decide)
    · rw [hwindow]
      simp only [Window.inner, List.mem_cons, List.not_mem_nil, or_false, not_or]
      exact ⟨hne (by decide), hne (by decide), hne (by decide)⟩
  have hchoose : Step lookingWorld (collectingBody chosenRead) later .int32
      ⟨⟨0⟩, [], lookingCall, []⟩ ⟨⟨1⟩, [.null], lookingCall, []⟩ :=
    .next (i := .ldarg 1) rfl (.load (l := .ofArgument 1) rfl rfl) rfl
  have hstay : Step lookingWorld (collectingBody chosenRead) later .int32
      ⟨⟨1⟩, [.null] ++ [], lookingCall, []⟩ ⟨⟨2⟩, [], lookingCall, []⟩ :=
    .stay (i := .branch .brtrue ⟨4⟩) rfl (.inl rfl) rfl rfl rfl
  have hsecond : Step lookingWorld (collectingBody chosenRead) later .int32
      ⟨⟨2⟩, [], lookingCall, []⟩ ⟨⟨3⟩, [.object 1], lookingCall, []⟩ :=
    .next (i := .ldloc 1) rfl (.load (l := .ofLocal 1) rfl rfl) rfl
  have hbranch : Step lookingWorld (collectingBody chosenRead) later .int32
      ⟨⟨3⟩, [.object 1], lookingCall, []⟩ ⟨⟨5⟩, [.object 1], lookingCall, []⟩ :=
    .branch (i := .branch .br ⟨5⟩) rfl rfl rfl
  have hloadObject : r.window.loadObject = ⟨5⟩ := by rw [hwindow]
  -- In the window it loads a description once more, and asks that for its name.
  have hload : Step lookingWorld b' later .int32 ⟨⟨5⟩, [.object 1], lookingCall, []⟩
      ⟨r.window.getValue, [.object 1, .object 1], lookingCall, []⟩ := by
    rw [← hloadObject]
    exact .next h.after.loadObject (.load rfl (by rw [hfield]; rfl)) h.after.third
  have hname : Step lookingWorld b' later .int32
      ⟨r.window.getValue, [.object 1, .object 1], lookingCall, []⟩
      ⟨r.window.unbox, [.string "score", .object 1], lookingCall, []⟩ :=
    .next h.after.getValue (does_name h [.object 1] lookingCall) h.after.fourth
  exact .head (step (by decide) hchoose) (.head (step (by decide) hstay)
    (.head (step (by decide) hsecond) (.head (step (by decide) hbranch)
      (.head hload (.one hname)))))

/-- A read is not routed soundly in every method. -/
theorem not_always_sound : ¬ ∀ (m m' : Module) (type : TypeDef) (t : Token) (method : MethodDef)
    (body : MethodBody) (getter : MethodRef) (report : Report),
    m.findType? extensionsType = some type → collector? m type = some t →
    m.methodDef? t = some method → method.body = some body → getter? m = some getter →
    getter.signature = ⟨false, .mvar 0, [.object, .string], 1⟩ → run m = .ok report m' →
    m'.references.FitsTokens →
    ∃ (body' : MethodBody) (r : Reading),
      m'.methodDef? t = some { method with body := some body' } ∧
      r.Routes getter m.references m'.references body body' ∧
      r.GetsByName body' m'.references method.signature.returnType := by
  have hcounts : EStateM.run' run (sharedUtils chosenRead) = some (Report.nothing.patched 1 0) := by
    decide +kernel
  have hfits : (run.after (sharedUtils chosenRead)).references.size < 0x1000000 := by decide +kernel
  have hgetter : getter? (sharedUtils chosenRead) = some (.plain (.ofClass extensionsType)
      "GetVariable" getVariable.signature) := by decide +kernel
  intro h
  obtain ⟨body', r, -, hr, hgets⟩ := h (sharedUtils chosenRead) _ extensions ⟨0x06000001⟩
    (collecting chosenRead) (collectingBody chosenRead) _ _ rfl rfl rfl rfl hgetter rfl
    (Edit.eq_ok_of_run' hcounts) hfits
  obtain ⟨-, -, hobject⟩ := reading_chosenRead hr
  have hstart : Starts lookingWorld body' [.object 7, .null] ⟨fun _ _ => none, ()⟩
      ⟨⟨0⟩, [], lookingCall, []⟩ := hr.starts_iff.mpr ⟨⟨0⟩, rfl, rfl⟩
  obtain ⟨description, object, name, rest, m₀, hstack, -, hread, hname⟩ :=
    hgets lookingWorld _ _ _ _ _ _ hstart (steps_chosenRead hr)
  -- Below the name there is the description, and not the argument.
  have hargument : m₀.arguments[0]? = some object := by
    rw [hobject] at hread
    exact hread
  rw [← arguments_of_does_name hr hname] at hargument
  cases hstack
  cases hargument

end CilWeave.ReflectiveGetter
