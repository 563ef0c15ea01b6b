import CilWeave.Run.Pass
import CilWeave.Text.Quoted

/-
Which passes run on which assembly.

An assembly is known by the name of its file. Its passes run one after the other,
in the order they were registered in, on the same module.
-/

namespace CilWeave

/-- The passes of each assembly. -/
structure Registry where
  /-- The names of the assembly files in order, with their passes. -/
  targets : List (String × List Pass)
  deriving DecidableEq, Repr, Inhabited

namespace Registry

def empty : Registry := ⟨[]⟩

/-- A pass put behind the passes of an assembly, among assemblies in order. -/
def insert (assembly : String) (pass : Pass) :
    List (String × List Pass) → List (String × List Pass)
  | [] => [(assembly, [pass])]
  | (other, passes) :: rest =>
    if assembly = other then (other, passes ++ [pass]) :: rest
    else if assembly < other then (assembly, [pass]) :: (other, passes) :: rest
    else (other, passes) :: insert assembly pass rest

def register (r : Registry) (assembly : String) (pass : Pass) : Registry :=
  ⟨insert assembly pass r.targets⟩

/-- The passes that are registered in a list of assemblies and passes. -/
def ofList (entries : List (String × Pass)) : Registry :=
  entries.foldl (fun r (assembly, pass) => r.register assembly pass) empty

/-- The passes for the assemblies of the game. -/
def standard : Registry :=
  ofList
    [("TeamCherry.NestedFadeGroup.dll", .callRedirection .getTypes),
      ("PlayMaker.dll", .callRedirection .getTypes),
      ("PlayMaker.dll", .typeLookupGuard .standard),
      ("Assembly-CSharp.dll", .accessorForwarding .standard),
      ("Assembly-CSharp.dll", .fieldAccess .standard),
      ("TeamCherry.SharedUtils.dll", .reflectiveGetter),
      ("Newtonsoft.Json.dll", .callRedirection .assignableFrom)]

/-- The passes of an assembly, in the order they run in. -/
def passesFor (r : Registry) (assembly : String) : List Pass :=
  ((r.targets.find? (·.1 == assembly)).map (·.2)).getD []

/-- The registry as text: the names of the passes by assembly. -/
def text (r : Registry) : String :=
  let entry := fun (assembly, passes) =>
    Quoted.quote assembly ++ ": ["
      ++ ", ".intercalate (passes.map fun pass : Pass => Quoted.quote pass.name) ++ "]"
  "\x7b" ++ ", ".intercalate (r.targets.map entry) ++ "\x7d"

/-- Writes a patched module to the file for its dump; a failure does not matter. -/
def dump (env : Environment) (s : Session) : Session :=
  match env.settings.dumpFile? s.module.name with
  | none => s
  | some path => { s with files := (s.files.writeDeep path s.module.fileContent).1 }

/-- Runs passes one after the other, up to the first that fails. -/
def runEach (env : Environment) :
    List Pass → (done : List (String × Report)) → Edit Session (List (String × Report))
  | [], done, s => .ok done.reverse s
  | pass :: rest, done, s =>
    match pass.run env s with
    | .error e s => .error e s
    | .ok report s => runEach env rest ((pass.name, report) :: done) s

/-- Runs the passes of a module, and dumps the module if they changed it. -/
def run (r : Registry) (env : Environment) : Edit Session (List (String × Report)) := fun s =>
  match runEach env (r.passesFor s.module.fileName) [] s with
  | .error e s => .error e s
  | .ok reports s => .ok reports (if reports.any (·.2.isChange) then dump env s else s)

end Registry

end CilWeave
