/-
Patch records: the methods a pass changed in one assembly.

To look through a large module takes long, and the methods a pass changes in it
are few. A record names them by type, so that a later run on the same assembly
can go straight to them. A fingerprint says which assembly the record is for.
Types and the methods of a type are kept in the order of their characters, each
of them once, so two records of the same methods are equal.
-/

namespace CilWeave

/-- The methods a pass changed in one assembly. -/
structure PatchRecord where
  /-- What the record is valid for. -/
  fingerprint : String
  /-- The methods of each type, in order. -/
  entries : List (String × List String)
  deriving DecidableEq, Repr, Inhabited

namespace PatchRecord

def empty (fingerprint : String) : PatchRecord := ⟨fingerprint, []⟩

/-- A name put into its place among ordered names. -/
def insertName (name : String) : List String → List String
  | [] => [name]
  | other :: rest =>
    if name = other then other :: rest
    else if name < other then name :: other :: rest
    else other :: insertName name rest

/-- Methods of a type put into their place among ordered entries. -/
def insertEntry (type : String) (methods : List String) :
    List (String × List String) → List (String × List String)
  | [] => [(type, methods.foldl (fun names name => insertName name names) [])]
  | (other, names) :: rest =>
    if type = other then
      (other, methods.foldl (fun names name => insertName name names) names) :: rest
    else if type < other then
      (type, methods.foldl (fun names name => insertName name names) [])
        :: (other, names) :: rest
    else (other, names) :: insertEntry type methods rest

def addAll (r : PatchRecord) (type : String) (methods : List String) : PatchRecord :=
  { r with entries := insertEntry type methods r.entries }

/-- The record with one more method of a type. -/
def add (r : PatchRecord) (type method : String) : PatchRecord := r.addAll type [method]

def contains (r : PatchRecord) (type method : String) : Bool :=
  r.entries.any fun (other, names) => other == type && names.contains method

/-- The recorded methods with their types, in order. -/
def pairs (r : PatchRecord) : List (String × String) :=
  r.entries.flatMap fun (type, names) => names.map fun name => (type, name)

/-- How many methods are recorded. -/
def size (r : PatchRecord) : Nat := r.pairs.length

def isEmpty (r : PatchRecord) : Bool := r.entries.isEmpty

end PatchRecord

end CilWeave
