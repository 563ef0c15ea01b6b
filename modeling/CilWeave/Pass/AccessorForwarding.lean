import CilWeave.Pass.Sweep
import CilWeave.Resolver

/-
Forwarding the accessors of a type to a backend.

Each accessor gets a new body: it pushes its arguments in order, calls the static
method of the same name on the backend type, and returns. Nothing of the old body
stays, but it must have been sound.
-/

namespace CilWeave

/-- The type whose accessors are forwarded, and where to. -/
structure AccessorForwarding where
  /-- The full name of the type. -/
  trackedType : String
  /-- The helper module of the backend. -/
  backendModule : String
  /-- The full name of the backend type. -/
  backendType : String
  deriving DecidableEq, Repr, Inhabited

namespace AccessorForwarding

/-- The accessors of the type that holds saved games go to a backend with a cache. -/
def standard : AccessorForwarding :=
  ⟨"PlayerData", "SilksongPrepatcher", "SilksongPrepatcher.PlayerData.PDCache"⟩

def accessors : List String :=
  ["Get", "Set"].flatMap fun start =>
    ["Bool", "Int", "String", "Float"].map fun ending => start ++ ending

/-- The accessor of a name, if the type declares one that has a body. -/
def accessor? (f : AccessorForwarding) (m : Module) (name : String) : Option Token := do
  let t ← m.findType? f.trackedType
  t.methods.toList.find? fun token =>
    match m.methodDef? token with
    | some method => method.name == name && method.hasBody
    | none => false

def backendOf (f : AccessorForwarding) (method : MethodDef) : MethodQuery :=
  { MethodQuery.named f.backendType method.name with
    parameterCount := some method.signature.argumentCount
    isStatic := some true }

/-- The code that hands this many arguments on to a method. -/
def forwarder (argumentCount : Nat) (backend : Token) : List Instruction :=
  (List.range argumentCount).map (fun index => .ldarg (UInt16.ofNat index))
    ++ [.call backend, .plain .ret]

/-- The body that hands this many arguments on to a method. -/
def forwarderBody (argumentCount : Nat) (backend : Token) : Except Error MethodBody :=
  if argumentCount ≤ 65536 then do
    return { MethodBody.empty with
      code := ← InstructionList.ofList (forwarder argumentCount backend) }
  else .error (.malformed .tooManyArguments)

/-- Puts the forwarding body in place of an old one. -/
def install (argumentCount : Nat) (backend : Token) : Edit (Draft Unit) Bool := fun d =>
  match forwarderBody argumentCount backend with
  | .error e => .error e d
  | .ok body => .ok true { d with body }

/-- Forwards the accessor of a token. -/
def forward (f : AccessorForwarding) (helpers : Resolver) (t : Token) : Edit Module Bool := fun m =>
  match m.methodDef? t with
  | none => .error (.dangling (.method t)) m
  | some method =>
    match helpers.importMethod f.backendModule (f.backendOf method) m.references with
    | .error e references => .error e { m with references }
    | .ok backend references =>
      Module.editMethod t method false
        (fun returnType => Draft.transact returnType id
          (install method.signature.argumentCount backend)) { m with references }

/-- Forwards the accessors of some names. -/
def forwardEach (f : AccessorForwarding) (helpers : Resolver) :
    List String → Report → Edit Module Report
  | [], report, m => .ok report m
  | name :: rest, report, m =>
    match f.accessor? m name with
    | none => forwardEach f helpers rest { report with missed := report.missed + 1 } m
    | some t =>
      match f.forward helpers t m with
      | .ok _ m => forwardEach f helpers rest (report.patched 1 0) m
      | .error e m =>
        if e.isMethodScoped then forwardEach f helpers rest report.failed m else .error e m

def run (f : AccessorForwarding) (helpers : Resolver) : Edit Module Report := fun m =>
  match m.findType? f.trackedType with
  | none => .error (.typeNotFound f.trackedType) m
  | some _ => f.forwardEach helpers accessors .nothing m

end AccessorForwarding

end CilWeave
