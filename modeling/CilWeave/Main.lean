import CilWeave.CommandLine.Run

/-
The program on a disk.

What a run does is a function of its arguments and of the files it can see. Around
it the program only looks at the files the arguments name, prints the two texts, and
puts what the run has changed on the disk.
-/

namespace CilWeave.Disk

def look (path : String) : IO (Option FileNode) := do
  let entry : IO.FS.DirEntry := ⟨".", path⟩
  if !(← entry.path.pathExists) then return none
  let modified : Timestamp := ⟨(← entry.path.metadata).modified.sec⟩
  if ← entry.path.isDir then return some (.directory modified)
  return some (.file (← IO.FS.readBinFile entry.path) modified)

/-- Takes in what stands at a path and on the way to it. -/
def takeIn (files : FileTree) (path : String) : IO FileTree :=
  (Path.ofText path).stages.foldlM (fun files stage => do
    match files.follow stage with
    | .error _ => return files
    | .ok place =>
      if FileTree.alwaysExists place then return files
      match ← look stage.text with
      | some node => return files.put place node
      | none => return files) files

/-- Takes in everything below a directory. -/
def takeInBelow (files : FileTree) (directory : String) : IO FileTree := do
  let files ← takeIn files directory
  let entry : IO.FS.DirEntry := ⟨".", directory⟩
  if !(← entry.path.isDir) then return files
  (← entry.path.walkDir).foldlM (fun files path => takeIn files path.toString) files

/-- The files a run with these arguments can see. -/
def visible (arguments : List String) : IO FileTree := do
  match CommandLine.Invocation.ofArguments arguments with
  | .error _ => return .empty ⟨0⟩
  | .ok invocation =>
    let files ← invocation.request.paths.foldlM takeIn (.empty ⟨0⟩)
    invocation.request.directory?.toList.foldlM takeInBelow files

def pathText (place : FilePlace) : String :=
  match place with
  | "/" :: components => Path.text ⟨true, components⟩
  | components => Path.text ⟨false, components⟩

/-- Puts what is new at a place on the disk. -/
def putBack (old : FileTree) (place : FilePlace) (node : FileNode) : IO Unit := do
  match node, old.at? place with
  | .directory _, none => IO.FS.createDir (pathText place)
  | .directory _, some _ => return ()
  | .file content _, some (.file before _) =>
    if content.toList != before.toList then IO.FS.writeBinFile (pathText place) content
  | .file content _, _ => IO.FS.writeBinFile (pathText place) content

end CilWeave.Disk

/-- Runs the program. -/
def main (arguments : List String) : IO UInt32 := do
  let files ← CilWeave.Disk.visible arguments
  let outcome := CilWeave.CommandLine.run arguments files
  outcome.files.nodes.reverse.forM fun (place, node) => CilWeave.Disk.putBack files place node
  IO.print outcome.stdout
  IO.eprint outcome.stderr
  return outcome.code
