import CilWeave.Document.Modules
import CilWeave.Json.Printer
import CilWeave.Record.File
import CilWeave.Resolver
import CilWeave.Run.Report
import CilWeave.Run.Settings

/-
What a pass works on, and what it may consult.
-/

namespace CilWeave

/-- What a pass may consult besides the module it patches. -/
structure Environment where
  /-- The settings of the run. -/
  settings : Settings
  /-- The helper modules. -/
  helpers : Resolver
  /-- The assembly file the module was read from. -/
  target : Option String
  deriving Inhabited

/-- What a pass works on. -/
structure Session where
  /-- The module that is patched. -/
  module : Module
  /-- The files of the run. -/
  files : FileTree
  deriving Inhabited

namespace Session

def onModule {α : Type} (edit : Edit Module α) : Edit Session α :=
  .within module (fun s module => { s with module }) edit

end Session

namespace Environment

def fingerprint? (env : Environment) (files : FileTree) : Option String :=
  env.target.bind fun target =>
    match PatchRecord.fingerprintOf env.settings.toolVersion files target with
    | .ok fingerprint => some fingerprint
    | .error _ => none

/-- The file and the fingerprint for the record of a pass on an assembly, if records
can be used. -/
def recordLocation? (env : Environment) (files : FileTree) (pass assembly : String) :
    Option (String × String) := do
  let path ← env.settings.recordFile? pass assembly
  let fingerprint ← env.fingerprint? files
  return (path, fingerprint)

end Environment

/-! Modules in files. -/

namespace Module

/-- Reads a module from a file. -/
def load (files : FileTree) (path : String) : Except Error Module :=
  match files.read path with
  | .ok content =>
    match Module.parse content.toList with
    | .ok m => .ok m
    | .error fault => .error (.document fault)
  | .error .isDirectory => .error (.document (.file .isDirectory))
  | .error fault => .error (.file fault)

def fileContent (m : Module) : ByteArray := m.toJson.pretty.toUTF8

def save (m : Module) (files : FileTree) (path : String) : Except Error FileTree :=
  match files.write path m.fileContent with
  | .ok files => .ok files
  | .error fault => .error (.file fault)

end Module

end CilWeave
