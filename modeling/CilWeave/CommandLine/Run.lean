import CilWeave.CommandLine.Help
import CilWeave.CommandLine.Table
import CilWeave.Document.Reports
import CilWeave.Run.Registry

/-
What the program answers.

A run is a function of the arguments and the files: it ends with an exit code, two
texts and the files as they are then. The code is 0, or 1 after a failure, or 2 if
the arguments are not well formed.
-/

namespace CilWeave.CommandLine

/-- How a run ends. -/
structure Outcome where
  /-- The exit code. -/
  code : UInt32
  /-- The text on standard output. -/
  stdout : String
  /-- The text on standard error. -/
  stderr : String
  /-- The files. -/
  files : FileTree
  deriving Inhabited

/-! Failures. -/

/-- Why a run failed: what could not be done, and then what each of the messages before
was caused by. -/
structure Failure where
  /-- What could not be done. -/
  message : String
  /-- The causes, the root of them last. -/
  causes : List String
  deriving DecidableEq, Repr, Inhabited

namespace Failure

/-- A failure without further causes. -/
def plain (message : String) : Failure := ⟨message, []⟩

/-- The messages of an error. Where the error only carries one from elsewhere, that one
is its cause. -/
def messages : Error → List String
  | .file fault => [fault.message, fault.message]
  | .document fault => [fault.message, fault.message]
  | .malformed cause => ["Malformed - " ++ cause.message]
  | e => [e.message]

def because (message : String) (e : Error) : Failure := ⟨message, messages e⟩

def ofError (e : Error) : Failure := ⟨(messages e).headD "", (messages e).tail⟩

def indentLines (margin text : String) : String :=
  ("\n" ++ margin).intercalate ((Pieces.split '\n' text.toList).map String.ofList)

/-- A number behind spaces, five characters wide. -/
def numberText (n : Nat) : String :=
  let digits := toString n
  String.ofList (List.replicate (5 - digits.length) ' ') ++ digits ++ ": "

/-- The causes as text; several of them are numbered. -/
def causesText : List String → String
  | [] => ""
  | [cause] => "\n\nCaused by:\n    " ++ indentLines "    " cause
  | causes =>
    "\n\nCaused by:" ++ String.join (causes.mapIdx fun n cause =>
      "\n" ++ numberText n ++ indentLines "       " cause)

def text (f : Failure) : String := "Error: " ++ f.message ++ causesText f.causes ++ "\n"

end Failure

/-! Answers. -/

def unlines (lines : List String) : String := String.join (lines.map (· ++ "\n"))

def answerText (asJson : Bool) (json : Json) (lines : List String) : String :=
  if asJson then json.pretty ++ "\n" else unlines lines

def kindOf (t : TypeDef) : String :=
  if t.isInterface then "interface" else if t.isNested then "nested" else "class"

def typesJson (m : Module) : Json :=
  .record [
    ("types", .ofList (fun t : TypeDef => .record [("token", .string t.token.text),
      ("kind", .string (kindOf t)), ("name", .string (m.typeFullName t)),
      ("fields", .nat t.fields.size), ("methods", .nat t.methods.size)]) m.allTypes),
    ("count", .nat m.allTypes.length)]

def typesTable (m : Module) : Table where
  columns := [("Token", .left), ("Kind", .left), ("Name", .left), ("Fields", .right),
    ("Methods", .right)]
  rows := m.allTypes.map fun t => [t.token.text, kindOf t, m.typeFullName t,
    toString t.fields.size, toString t.methods.size]

/-- Lists the types of a module. -/
def runTypes (asJson : Bool) (file : String) (files : FileTree) : Except Failure String :=
  match Module.load files file with
  | .error e => .error (.because ("failed to load module: " ++ file) e)
  | .ok m =>
    .ok (answerText asJson (typesJson m) ((typesTable m).lines
      ++ ["", toString m.allTypes.length ++ " type(s) listed."]))

def recordJson (fingerprint : String) (record : Option PatchRecord) : Json :=
  let pairs := (record.map PatchRecord.pairs).getD []
  .record [("fingerprint", .string fingerprint), ("valid", .bool record.isSome),
    ("entries", .ofList (fun (type, method) =>
      .record [("type_name", .string type), ("method", .string method)]) pairs)]

/-- A record, or the lack of a valid one, as lines. -/
def recordLines (fingerprint : String) (record : Option PatchRecord) : List String :=
  ("Fingerprint: " ++ fingerprint) ::
    match record with
    | none => ["Cache is stale or unreadable, a full scan will run."]
    | some record =>
      let table : Table := ⟨[("Type", .left), ("Method", .left)],
        record.pairs.map fun (type, method) => [type, method]⟩
      table.lines ++ ["", toString record.size ++ " method(s) recorded."]

/-- Shows a record, for the fingerprint it states itself unless another one is given. -/
def runCache (asJson : Bool) (file : String) (fingerprint : Option String) (files : FileTree) :
    Except Failure String :=
  match files.readText file with
  | .error fault => .error ⟨"failed to read cache: " ++ file, [fault.message]⟩
  | .ok text =>
    match fingerprint.or (PatchRecord.statedFingerprint? text) with
    | none => .error (.plain ("no fingerprint recorded in " ++ file))
    | some fingerprint =>
      match PatchRecord.ofText text file fingerprint with
      | .error e => .error (.ofError e)
      | .ok record =>
        .ok (answerText asJson (recordJson fingerprint record) (recordLines fingerprint record))

/-- The passes of a registry, with their assemblies and numbers. -/
def passEntries (r : Registry) : List (String × Nat × Pass) :=
  r.targets.flatMap fun (assembly, passes) =>
    passes.mapIdx fun n pass => (assembly, n + 1, pass)

/-- Lists the passes. -/
def runPasses (asJson : Bool) : String :=
  let entries := passEntries .standard
  let json : Json := .ofList (fun (assembly, order, pass) =>
    .record [("assembly", .string assembly), ("order", .nat order),
      ("pass", .string (Pass.name pass)), ("description", .string pass.description)]) entries
  let table : Table := ⟨[("Assembly", .left), ("#", .right), ("Pass", .left),
      ("Description", .left)],
    entries.map fun (assembly, order, pass) =>
      [assembly, toString order, pass.name, pass.description]⟩
  answerText asJson json table.lines

/-! Patching. -/

namespace PatchRequest

def settings (r : PatchRequest) : Settings :=
  { Settings.standard with cacheDir := r.cacheDir, dumps := r.dump, useRecords := !r.noCache }

/-- Where the patched module goes. -/
def outFile (r : PatchRequest) : String := r.out.getD r.file

def loadHelpers (r : PatchRequest) (files : FileTree) : Except Failure Resolver :=
  r.references.foldlM (fun helpers file =>
    match Module.load files file with
    | .ok m => .ok (helpers.add m)
    | .error e => .error (.because ("failed to load reference: " ++ file) e)) .empty

/-- What is said about a request that cannot have its full effect. -/
def warning (r : PatchRequest) : String :=
  if r.dump && r.cacheDir.isNone then "--dump has no effect without --cache-dir\n" else ""

end PatchRequest

def reportsJson (m : Module) (out : String) (reports : List (String × Report)) : Json :=
  .record [("module", .string m.fileName), ("output", .string out),
    ("passes", .ofList (fun (name, report) =>
      .record (("pass", .string name) :: Report.members report)) reports),
    ("total", (reports.foldl (fun total entry => total + entry.2) Report.nothing).toJson)]

/-- A run of passes as a table. -/
def reportsTable (reports : List (String × Report)) : Table where
  columns := [("Pass", .left), ("Methods", .right), ("Replaced", .right), ("Missed", .right),
    ("Failed", .right), ("Cached", .left), ("Time", .right)]
  rows :=
    let total := reports.foldl (fun total entry => total + entry.2) Report.nothing
    (reports ++ [("Total", total)]).map fun (name, r) =>
      [name, toString r.methodsPatched, toString r.replaced, toString r.missed,
        toString r.failedMethods, if r.fromRecord then "yes" else "no",
        toString r.elapsed ++ " ms"]

/-- The name of a file without its directory. -/
def displayName (path : String) : String := ((Path.ofText path).fileName?).getD path

def reportsText (asJson : Bool) (r : PatchRequest) (m : Module)
    (reports : List (String × Report)) : String × String :=
  if asJson then ((reportsJson m r.outFile reports).pretty ++ "\n", "")
  else if reports.isEmpty then ("", "No passes registered for " ++ m.fileName ++ "\n")
  else (unlines (reportsTable reports).lines,
    "\nPatched " ++ displayName r.file ++ " -> " ++ displayName r.outFile ++ "\n")

/-- Patches a module with the standard passes. -/
def runPatch (asJson : Bool) (r : PatchRequest) (files : FileTree) : Outcome :=
  match Module.load files r.file with
  | .error e => ⟨1, "", (Failure.because ("failed to load module: " ++ r.file) e).text, files⟩
  | .ok m =>
    match r.loadHelpers files with
    | .error f => ⟨1, "", f.text, files⟩
    | .ok helpers =>
      match Registry.standard.run ⟨r.settings, helpers, r.target⟩ ⟨m, files⟩ with
      | .error e s =>
        ⟨1, "", r.warning ++ (Failure.because ("patching failed: " ++ r.file) e).text, s.files⟩
      | .ok reports s =>
        match s.module.save s.files r.outFile with
        | .error e =>
          ⟨1, "", r.warning
            ++ (Failure.because ("failed to write output: " ++ r.outFile) e).text, s.files⟩
        | .ok files =>
          let (out, err) := reportsText asJson r s.module reports
          ⟨0, out, r.warning ++ err, files⟩

/-! The program. -/

/-- What is said to arguments that are not well formed. -/
def usageText : String :=
  unlines [programSpec.usageLine, "", "For more information, try '--help'."]

/-- The outcome of a request that leaves the files alone. -/
def reading (files : FileTree) : Except Failure String → Outcome
  | .ok text => ⟨0, text, "", files⟩
  | .error f => ⟨1, "", f.text, files⟩

def run (arguments : List String) (files : FileTree) : Outcome :=
  match Invocation.ofArguments arguments with
  | .error (.help spec) => ⟨0, unlines spec.helpLines, "", files⟩
  | .error .version => ⟨0, unlines [versionLine], "", files⟩
  | .error .usage => ⟨2, "", usageText, files⟩
  | .ok ⟨json, .patch request⟩ => runPatch json request files
  | .ok ⟨json, .types file⟩ => reading files (runTypes json file files)
  | .ok ⟨json, .cache file fingerprint⟩ => reading files (runCache json file fingerprint files)
  | .ok ⟨json, .passes⟩ => ⟨0, runPasses json, "", files⟩

end CilWeave.CommandLine
