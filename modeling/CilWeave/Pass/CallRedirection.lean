import CilWeave.Module.Enumeration
import CilWeave.Pass.Sweep
import CilWeave.Resolver

/-
Redirecting the calls of one method to a static replacement.

The replacement takes the receiver as its first argument. So a call can only be
redirected if both methods pop the same number of values and agree on whether
they return one; other calls are missed.
-/

namespace CilWeave

/-- The calls to redirect, and where to. -/
structure CallRedirection where
  /-- The name of the pass. -/
  name : String
  /-- What the pass does, in words. -/
  description : String
  /-- The full name of the type of the called method. -/
  targetType : String
  /-- The name of the called method. -/
  targetMember : String
  /-- The helper module of the replacement. -/
  replacementModule : String
  /-- The replacement. -/
  replacement : MethodQuery
  deriving DecidableEq, Repr, Inhabited

namespace CallRedirection

/-- What a redirection does, in words. -/
def standardDescription : String := "Redirects calls of one method to a static replacement"

def helperModule : String := "SilksongPrepatcher"

def helperType : String := "SilksongPrepatcher.Utils.AssemblyExtensions"

/-- A static method of the helper type with these parameters. -/
def helperMethod (name : String) (parameters : List TypeSig) : MethodQuery :=
  { MethodQuery.named helperType name with
    parameterTypes := some parameters
    isStatic := some true }

/-- Calls that list the types of an assembly go to a method that also answers where
one of the types cannot be loaded. -/
def getTypes : CallRedirection :=
  ⟨"GetTypes", "Makes type enumeration tolerate assemblies that fail to load",
    "System.Reflection.Assembly", "GetTypes", helperModule,
    helperMethod "GetTypesSafelyIgnoreMMHook" [.ofClass "System.Reflection.Assembly"]⟩

/-- Calls that ask whether a type can be assigned go to a method that answers no where
a type cannot be loaded. -/
def assignableFrom : CallRedirection :=
  ⟨"TypeAssignableFrom", "Makes assignability probes tolerate types that fail to load",
    "System.Type", "IsAssignableFrom", helperModule,
    helperMethod "TypeAssignableFromSafe" [.ofClass "System.Type", .ofClass "System.Type"]⟩

def targets (r : CallRedirection) (method : MethodRef) : Bool :=
  method.name == r.targetMember && method.declaringType.fullName == r.targetType

/-- Whether an instruction is a call of that method. -/
def applies (r : CallRedirection) (references : ReferenceTable) (i : Instruction) : Bool :=
  (i.op == .call || i.op == .callvirt) &&
    match i.token? with
    | some t =>
      match references.method t with
      | .ok method => r.targets method
      | .error _ => false
    | none => false

/-- Whether a call of one method can become a call of the other. -/
def fits (method replacement : MethodRef) : Bool :=
  method.pops == replacement.pops && method.returnType.isVoid == replacement.returnType.isVoid

/-- The rule that redirects the calls to an imported replacement. -/
def rule (r : CallRedirection) (token : Token) (replacement : MethodRef) : RewriteRule Unit where
  applies _ references i := r.applies references i
  build body site s :=
    match body.instruction site with
    | .error e => .error e s
    | .ok i =>
      match i.token? with
      | none => .ok none s
      | some t =>
        match s.references.method t with
        | .error e => .error e s
        | .ok method =>
          if fits method replacement then .ok (some (.of [.call token])) s else .ok none s

def candidates (m : Module) : List Token :=
  (m.allMethods.filter MethodDef.hasBody).map MethodDef.token

/-- Redirects the calls in every method of a module. -/
def run (r : CallRedirection) (helpers : Resolver) : Edit Module Report := fun m =>
  match helpers.importMethod r.replacementModule r.replacement m.references with
  | .error e references => .error e { m with references }
  | .ok token references =>
    match references.method token with
    | .error e => .error e { m with references }
    | .ok replacement =>
      match Module.sweep (r.rule token replacement) (candidates m) { m with references } with
      | .ok (report, _) m => .ok report m
      | .error e m => .error e m

end CallRedirection

end CilWeave
