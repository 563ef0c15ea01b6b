import CilWeave.Error
import CilWeave.Files.Path
import CilWeave.Files.Timestamp

/-
The files and directories a run can see.

Every file and directory stands under its place: the components that lead to it
from the working directory, without `.` and without any `..` that could be
resolved. A path is followed component by component, and everything on the way
must be a directory that exists.
-/

namespace CilWeave

/-- A file or a directory. -/
inductive FileNode where
  /-- A file with its bytes and the time it was last modified. -/
  | file (content : ByteArray) (modified : Timestamp)
  /-- A directory with the time it was last modified. -/
  | directory (modified : Timestamp)
  deriving Inhabited

/-- The components that lead to a file from the working directory. Places below the
root start with a slash as a component, places above the working directory with `..`. -/
abbrev FilePlace := List String

/-- The files and directories a run can see. -/
structure FileTree where
  /-- What stands at each place, apart from the places that always exist. -/
  nodes : List (FilePlace × FileNode)
  /-- The time at which files are written now. -/
  now : Timestamp
  deriving Inhabited

namespace FileTree

/-- A working directory without files. -/
def empty (now : Timestamp) : FileTree := ⟨[], now⟩

/-- Whether a place exists in every tree: the working directory, the root, and the
directories above the working directory. -/
def alwaysExists (place : FilePlace) : Bool := place == ["/"] || place.all (· == "..")

def at? (tree : FileTree) (place : FilePlace) : Option FileNode :=
  if alwaysExists place then some (.directory tree.now)
  else (tree.nodes.find? (·.1 == place)).map (·.2)

def put (tree : FileTree) (place : FilePlace) (node : FileNode) : FileTree :=
  { tree with nodes := (place, node) :: tree.nodes.filter (·.1 != place) }

def above (place : FilePlace) : FilePlace :=
  if place == ["/"] then place
  else if place.getLast?.all (· == "..") then place ++ [".."]
  else place.dropLast

def enter (tree : FileTree) (place : FilePlace) : Except FileFault Unit :=
  match tree.at? place with
  | none => .error .notFound
  | some (.file ..) => .error .notDirectory
  | some (.directory _) => .ok ()

/-- One step along a path, from a place that must be a directory. -/
def step (tree : FileTree) (place : FilePlace) (component : String) :
    Except FileFault FilePlace := do
  tree.enter place
  if component == ".." then .ok (above place)
  else if 255 < component.utf8ByteSize then .error .nameTooLong
  else .ok (place ++ [component])

/-- The place a path leads to; everything before its last component must exist. -/
def follow (tree : FileTree) (path : Path) : Except FileFault FilePlace :=
  path.components.foldlM tree.step (if path.absolute then ["/"] else [])

def textFault? (text : String) : Option FileFault :=
  if text.toList.any (·.toNat == 0) then some .badCharacter
  else if text.isEmpty then some .notFound
  else if 4096 ≤ text.utf8ByteSize then some .nameTooLong
  else none

/-- The place the text of a path leads to. -/
def locate (tree : FileTree) (text : String) : Except FileFault FilePlace :=
  match textFault? text with
  | some fault => .error fault
  | none => tree.follow (.ofText text)

/-- Whether a text can only be meant for a directory: it ends in a slash or in `.`. -/
def meansDirectory (text : String) : Bool :=
  match (Path.parts text).getLast? with
  | some last => last.isEmpty || last == ['.']
  | none => false

/-- What the text of a path leads to. -/
def lookup (tree : FileTree) (text : String) : Except FileFault FileNode := do
  match tree.at? (← tree.locate text) with
  | none => .error .notFound
  | some (.file content modified) =>
    if meansDirectory text then .error .notDirectory else .ok (.file content modified)
  | some (.directory modified) => .ok (.directory modified)

/-- The time a file or directory was last modified. -/
def modified (tree : FileTree) (text : String) : Except FileFault Timestamp := do
  match ← tree.lookup text with
  | .file _ modified => .ok modified
  | .directory modified => .ok modified

def read (tree : FileTree) (text : String) : Except FileFault ByteArray := do
  match ← tree.lookup text with
  | .file content _ => .ok content
  | .directory _ => .error .isDirectory

def readText (tree : FileTree) (text : String) : Except FileFault String := do
  match String.fromUTF8? (← tree.read text) with
  | some content => .ok content
  | none => .error .notText

/-- Writes a file in a directory that exists, over an older file of that path. No file
can be made by a name that is meant for a directory; of such a path only the directory
is looked at that a new one would stand in, or that its last `.` stands for. -/
def write (tree : FileTree) (text : String) (content : ByteArray) :
    Except FileFault FileTree := do
  let path := Path.ofText text
  match textFault? text with
  | some fault => .error fault
  | none =>
    if meansDirectory text then
      tree.enter (← tree.follow (if Path.endsInDot text then path else path.parent?.getD path))
      .error .isDirectory
    else
      let place ← tree.follow path
      match tree.at? place with
      | some (.directory _) => .error .isDirectory
      | _ => .ok (tree.put place (.file content tree.now))

def makeDirectory (tree : FileTree) (path : Path) : Except FileFault FileTree := do
  let place ← tree.follow path
  match tree.at? place with
  | some _ => .error .exists
  | none => .ok (tree.put place (.directory tree.now))

def isDirectory (tree : FileTree) (path : Path) : Bool :=
  match tree.follow path with
  | .ok place =>
    match tree.at? place with
    | some (.directory _) => true
    | _ => false
  | .error _ => false

/-- Makes a directory unless there is one already. -/
def ensureDirectory (tree : FileTree) (path : Path) : Except FileFault FileTree :=
  match tree.makeDirectory path with
  | .ok tree => .ok tree
  | .error fault => if tree.isDirectory path then .ok tree else .error fault

/-- Makes a directory with those on the way to it. What was made before a failure
stays. -/
def makeDirectories (tree : FileTree) (absolute : Bool) :
    (reversed : List String) → FileTree × Except FileFault Unit
  | [] => (tree, .ok ())
  | last :: above =>
    let path : Path := ⟨absolute, (last :: above).reverse⟩
    match tree.makeDirectory path with
    | .ok tree => (tree, .ok ())
    | .error .notFound =>
      match makeDirectories tree absolute above with
      | (tree, .error fault) => (tree, .error fault)
      | (tree, .ok ()) =>
        match tree.ensureDirectory path with
        | .ok tree => (tree, .ok ())
        | .error fault => (tree, .error fault)
    | .error fault =>
      if tree.isDirectory path then (tree, .ok ()) else (tree, .error fault)

/-- Makes the directory of a text with those on the way to it. The empty text is the
working directory, which is there. -/
def makeDirectoriesTo (tree : FileTree) (text : String) : FileTree × Except FileFault Unit :=
  if text.isEmpty then (tree, .ok ())
  else
    match textFault? text with
    | some fault => (tree, .error fault)
    | none =>
      let path := Path.ofText text
      tree.makeDirectories path.absolute path.components.reverse

/-- Writes a file and makes the directories on the way to it first. They stay if the
file cannot be written. -/
def writeDeep (tree : FileTree) (text : String) (content : ByteArray) :
    FileTree × Except FileFault Unit :=
  match tree.makeDirectoriesTo (Path.parentText text) with
  | (tree, .error fault) => (tree, .error fault)
  | (tree, .ok ()) =>
    match tree.write text content with
    | .ok tree => (tree, .ok ())
    | .error fault => (tree, .error fault)

/-- The paths of all files below the working directory, in order. -/
def paths (tree : FileTree) : List String :=
  let files := tree.nodes.filterMap fun (place, node) =>
    match node with
    | .file .. =>
      if place.head?.any fun first => first == "/" || first == ".." then none
      else some ("/".intercalate place)
    | .directory _ => none
  files.mergeSort (· ≤ ·)

end FileTree

end CilWeave
