/-
The arguments of the command line.

Arguments are taken in one after the other. An option may have its value behind
an equals sign, directly behind its letter, or in the next argument, which then
must not look like an option itself. After `--` everything is positional. The
options of every command can stand before the command as well as behind it.
-/

namespace CilWeave.CommandLine

/-- What the value of an option may be. -/
inductive ValueKind where
  /-- Any text. -/
  | text
  /-- The path of a file, which is not empty. -/
  | path
  deriving DecidableEq, Repr, Inhabited

/-- An option of a command. -/
structure OptionSpec where
  /-- The name behind two hyphens. -/
  name : String
  /-- The letter behind one hyphen. -/
  letter : Option Char
  /-- What its value may be; a flag has none. -/
  value : Option ValueKind
  /-- Whether it can be given more than once. -/
  repeatable : Bool
  /-- What its value is called. -/
  valueName : String
  /-- What it is for. -/
  about : String
  /-- Where it stands among the options of a help text. -/
  rank : Nat
  deriving DecidableEq, Repr, Inhabited

/-- A command with what can follow it. -/
structure CommandSpec where
  /-- The name. -/
  name : String
  /-- What it does. -/
  about : String
  /-- The commands that can follow, with what they do; one of them then has to. -/
  commands : List (String × String)
  /-- The argument it takes besides its options, as it is called, and what it is. -/
  operand : Option (String × String)
  /-- The options. -/
  options : List OptionSpec
  deriving DecidableEq, Repr, Inhabited

def CommandSpec.takesFile (spec : CommandSpec) : Bool := spec.operand.isSome

/-- Why the arguments ask for no command. -/
inductive Refusal where
  /-- They are not well formed. -/
  | usage
  /-- They ask how a command is used. -/
  | help (spec : CommandSpec)
  /-- They ask for the version of the program. -/
  | version
  deriving DecidableEq, Repr, Inhabited

/-- The arguments taken in so far. -/
structure Given where
  /-- The options with their values, in the order they were given in. -/
  options : List (String × String)
  /-- The files, in the order they were given in. -/
  files : List String
  deriving DecidableEq, Repr, Inhabited

namespace Given

def nothing : Given := ⟨[], []⟩

def has (g : Given) (name : String) : Bool := g.options.any (·.1 == name)

def values (g : Given) (name : String) : List String :=
  (g.options.filter (·.1 == name)).map (·.2)

def value? (g : Given) (name : String) : Option String := (g.values name).head?

/-- Takes in an option. -/
def add (g : Given) (o : OptionSpec) (value : String) : Except Refusal Given :=
  if g.has o.name && !o.repeatable then .error .usage
  else if o.value == some .path && value.isEmpty then .error .usage
  else .ok { g with options := g.options ++ [(o.name, value)] }

def addFile (g : Given) (spec : CommandSpec) (file : String) : Except Refusal Given :=
  if spec.takesFile && g.files.isEmpty && !file.isEmpty then .ok { g with files := [file] }
  else .error .usage

def addFiles (g : Given) (spec : CommandSpec) (files : List String) : Except Refusal Given :=
  files.foldlM (fun g file => g.addFile spec file) g

end Given

/-! Options. -/

def flag (name : String) (letter : Option Char) (about : String) : OptionSpec :=
  ⟨name, letter, none, false, "", about, 0⟩

/-- An option with a value that can be given once. -/
def valued (name : String) (letter : Option Char) (kind : ValueKind)
    (valueName about : String) : OptionSpec :=
  ⟨name, letter, some kind, false, valueName, about, 0⟩

/-- Some options, ranked as they are listed here. -/
def ranked (options : List OptionSpec) : List OptionSpec :=
  options.mapIdx fun n o => { o with rank := n }

def globalOptions : List OptionSpec :=
  ranked [flag "json" none "Emit output as JSON instead of human-readable text",
    flag "verbose" (some 'v') "Enable verbose (debug-level) logging output"]

/-- The option that asks how a command is used. It stands behind all others but that
for the version. -/
def helpOption : OptionSpec := { flag "help" (some 'h') "Print help" with rank := 999 }

def versionOption : OptionSpec := { flag "version" (some 'V') "Print version" with rank := 999 }

def commandSpec (name about : String) (file : Option String) (options : List OptionSpec) :
    CommandSpec :=
  ⟨name, about, [], file.map fun about => ("<FILE>", about),
    ranked options ++ globalOptions ++ [helpOption]⟩

/-- The commands. -/
def commands : List CommandSpec :=
  [commandSpec "patch" "Run the standard passes registered for a module"
      (some "Path to the module (JSON)")
      [{ valued "reference" (some 'r') .path "FILE"
          "Helper module providing replacement members (repeatable)" with repeatable := true },
        valued "target-file" none .path "DLL"
          "Assembly the module was read from; enables the patch cache",
        valued "out" (some 'o') .path "PATH" "Output file (default: overwrite the input)",
        valued "cache-dir" none .path "DIR" "Directory for patch caches and dumped modules",
        flag "no-cache" none "Always scan the whole module",
        flag "dump" none "Also write the patched module into the cache directory"],
    commandSpec "types" "List every type of a module, nested types included"
      (some "Path to the module (JSON)") [],
    commandSpec "cache" "Show the contents of a patch cache file"
      (some "Path to the cache file")
      [valued "fingerprint" none .text "FINGERPRINT"
        "Fingerprint to validate against (default: the one recorded in the file)"],
    commandSpec "passes" "List the target assemblies and passes of the standard registry"
      none []]

/-- The command that tells how the others are used. -/
def helpCommand : CommandSpec :=
  ⟨"help", "Print this message or the help of the given subcommand(s)", [],
    some ("[COMMAND]...", "Print help for the subcommand(s)"), []⟩

/-- What can stand in front of the command. -/
def programSpec : CommandSpec :=
  ⟨"cilpatch", "Command line front-end for cilpatch",
    (commands ++ [helpCommand]).map fun spec => (spec.name, spec.about), none,
    globalOptions ++ [helpOption, versionOption]⟩

def useFlag (spec : CommandSpec) (g : Given) (o : OptionSpec) : Except Refusal Given :=
  if o == helpOption then .error (.help spec)
  else if o == versionOption then .error .version
  else g.add o ""

/-- What an argument is. -/
inductive Argument where
  /-- The end of the options. -/
  | ending
  /-- An option by its name, with what is behind the equals sign. -/
  | long (name : String) (value : Option String)
  /-- Options by their letters. -/
  | short (letters : List Char)
  /-- Anything else. -/
  | plain (text : String)
  deriving DecidableEq, Repr, Inhabited

def Argument.ofText (text : String) : Argument :=
  match text.toList with
  | ['-', '-'] => .ending
  | '-' :: '-' :: rest =>
    let name := String.ofList (rest.takeWhile (· != '='))
    match rest.dropWhile (· != '=') with
    | [] => .long name none
    | _ :: value => .long name (some (String.ofList value))
  | '-' :: c :: rest => .short (c :: rest)
  | _ => .plain text

/-- The value of an option in the next argument, and the arguments after it. -/
def nextValue : List String → Except Refusal (String × List String)
  | [] => .error .usage
  | text :: rest =>
    match Argument.ofText text with
    | .plain value => .ok (value, rest)
    | _ => .error .usage

/-- Takes in options by their letters; a letter that wants a value takes what is left
of the argument, or the next one. The arguments left over are those after it. -/
def useLetters (spec : CommandSpec) :
    List Char → List String → Given → Except Refusal (Given × List String)
  | [], rest, g => .ok (g, rest)
  | c :: letters, rest, g =>
    match spec.options.find? (·.letter == some c) with
    | none => .error .usage
    | some o =>
      if o.value.isSome then
        match letters with
        | [] => do
          let (value, rest) ← nextValue rest
          return (← g.add o value, rest)
        | '=' :: value => do return (← g.add o (String.ofList value), rest)
        | value => do return (← g.add o (String.ofList value), rest)
      else do useLetters spec letters rest (← useFlag spec g o)

/-- Takes in an option by its name. -/
def useName (spec : CommandSpec) (name : String) (value : Option String) (rest : List String)
    (g : Given) : Except Refusal (Given × List String) :=
  match spec.options.find? (·.name == name) with
  | none => .error .usage
  | some o =>
    match o.value, value with
    | some _, some value => do return (← g.add o value, rest)
    | some _, none => do
      let (value, rest) ← nextValue rest
      return (← g.add o value, rest)
    | none, none => do return (← useFlag spec g o, rest)
    | none, some _ => .error .usage

/-- Takes in the arguments behind a command. Every step uses up an argument, so there
are no more than `count` steps. -/
def readArguments (spec : CommandSpec) : (count : Nat) → List String → Given →
    Except Refusal Given
  | _, [], g => .ok g
  | 0, _ :: _, _ => .error .usage
  | count + 1, text :: rest, g =>
    match Argument.ofText text with
    | .ending => g.addFiles spec rest
    | .long name value => do
      let (g, rest) ← useName spec name value rest g
      readArguments spec count rest g
    | .short letters => do
      let (g, rest) ← useLetters spec letters rest g
      readArguments spec count rest g
    | .plain text => do readArguments spec count rest (← g.addFile spec text)

/-- What a request for help with some commands comes to. -/
def helpOn : List String → Refusal
  | [] => .help programSpec
  | [name] =>
    match (commands ++ [helpCommand]).find? (·.name == name) with
    | some spec => .help spec
    | none => .usage
  | _ => .usage

/-- Takes in the options in front of the command, then the command with its arguments.
The first result is what was given in front. -/
def readProgram : (count : Nat) → List String → Given →
    Except Refusal (Given × CommandSpec × Given)
  | _, [], _ => .error .usage
  | 0, _ :: _, _ => .error .usage
  | count + 1, text :: rest, g =>
    match Argument.ofText text with
    | .ending => .error .usage
    | .long name value => do
      let (g, rest) ← useName programSpec name value rest g
      readProgram count rest g
    | .short letters => do
      let (g, rest) ← useLetters programSpec letters rest g
      readProgram count rest g
    | .plain text =>
      match commands.find? (·.name == text) with
      | some spec => do return (g, spec, ← readArguments spec rest.length rest .nothing)
      | none => if text == "help" then .error (helpOn rest) else .error .usage

/-! Requests. -/

/-- What a module is patched with. -/
structure PatchRequest where
  /-- The module to patch. -/
  file : String
  /-- The helper modules. -/
  references : List String
  /-- The assembly the module was read from. -/
  target : Option String
  /-- Where the patched module goes, if it does not go over the old one. -/
  out : Option String
  /-- The directory for records and dumps. -/
  cacheDir : Option String
  /-- Whether records are left alone. -/
  noCache : Bool
  /-- Whether the patched module is dumped. -/
  dump : Bool
  deriving DecidableEq, Repr, Inhabited

/-- What the program is asked to do. -/
inductive Request where
  /-- Patch a module. -/
  | patch (request : PatchRequest)
  /-- List the types of a module. -/
  | types (file : String)
  /-- Show a record. -/
  | cache (file : String) (fingerprint : Option String)
  /-- List the passes. -/
  | passes
  deriving DecidableEq, Repr, Inhabited

/-- A request, and whether its answer is to be JSON. -/
structure Invocation where
  /-- Whether the answer is to be JSON. -/
  json : Bool
  /-- The request. -/
  request : Request
  deriving DecidableEq, Repr, Inhabited

def Request.paths : Request → List String
  | .patch r => r.file :: r.references ++ r.target.toList ++ r.out.toList
  | .types file => [file]
  | .cache file _ => [file]
  | .passes => []

/-- The directory in which a request may look for more files. -/
def Request.directory? : Request → Option String
  | .patch r => r.cacheDir
  | _ => none

/-- The request of a command with its arguments. -/
def Request.ofGiven (spec : CommandSpec) (g : Given) : Except Refusal Request :=
  match spec.name, g.files with
  | "patch", [file] =>
    .ok (.patch ⟨file, g.values "reference", g.value? "target-file", g.value? "out",
      g.value? "cache-dir", g.has "no-cache", g.has "dump"⟩)
  | "types", [file] => .ok (.types file)
  | "cache", [file] => .ok (.cache file (g.value? "fingerprint"))
  | "passes", [] => .ok .passes
  | _, _ => .error .usage

/-- What the arguments of the command line ask for. -/
def Invocation.ofArguments (arguments : List String) : Except Refusal Invocation := do
  let (before, spec, g) ← readProgram arguments.length arguments .nothing
  return ⟨before.has "json" || g.has "json", ← Request.ofGiven spec g⟩

end CilWeave.CommandLine
