import CilWeave.Text.Pieces

/-
Paths: names of files as text, with components between slashes.

An empty component stands for nothing, and `.` for the directory it is in. A path
that ends in a slash can only mean a directory.
-/

namespace CilWeave

/-- A path taken apart. -/
structure Path where
  /-- Whether it starts at the root rather than in the working directory. -/
  absolute : Bool
  /-- The components, without those that stand for nothing. -/
  components : List String
  deriving DecidableEq, Repr, Inhabited

namespace Path

def parts (text : String) : List (List Char) := Pieces.split '/' text.toList

/-- Whether a part between slashes stands for nothing. -/
def isIdle (part : List Char) : Bool := part.isEmpty || part == ['.']

def ofText (text : String) : Path :=
  ⟨text.toList.head? == some '/', ((parts text).filter (!isIdle ·)).map String.ofList⟩

/-- The text in front of the last component, without what stands for nothing at its
end: the directory of a file, as the path of the file writes it. -/
def parentText (text : String) : String :=
  let rest := ((parts text).reverse.dropWhile isIdle).tail.dropWhile isIdle
  "/".intercalate (rest.reverse.map String.ofList)

/-- Whether only a directory can be meant, by the way the path ends. -/
def endsInSlash (text : String) : Bool := text.toList.getLast? == some '/'

/-- Whether the last component of a text is `.`, and so what stands in front of it has
to be a directory. -/
def endsInDot (text : String) : Bool :=
  ((parts text).filter fun p => !p.isEmpty).getLast? == some ['.']

def text (p : Path) : String := (if p.absolute then "/" else "") ++ "/".intercalate p.components

/-- The paths of the directories on the way, and the path itself, which comes last. -/
def stages (p : Path) : List Path :=
  (List.range p.components.length).map fun n =>
    { p with components := p.components.take (n + 1) }

/-- The path of the directory that holds the file of this path. -/
def parent? (p : Path) : Option Path :=
  if p.components.isEmpty then none else some { p with components := p.components.dropLast }

def fileName? (p : Path) : Option String :=
  match p.components.getLast? with
  | some ".." => none
  | found => found

/-- The text of a path inside a directory. A path that starts at the root is not
inside any. -/
def join (directory name : String) : String :=
  if name.toList.head? == some '/' then name
  else if directory.isEmpty || endsInSlash directory then directory ++ name
  else directory ++ "/" ++ name

end Path

end CilWeave
