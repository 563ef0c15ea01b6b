import CilWeave.MethodQuery

/-
The helper modules a patch run may take members from.

A helper is known by its name, and may also be asked for by the name of its
file. A later helper replaces an earlier one of the same name.
-/

namespace CilWeave

/-- The helper modules by name. -/
structure Resolver where
  /-- The modules, with different names. -/
  modules : List Module
  deriving Inhabited

namespace Resolver

def empty : Resolver := ⟨[]⟩

/-- The helpers with one more, in place of an older one of the same name. -/
def add (r : Resolver) (m : Module) : Resolver :=
  ⟨m :: r.modules.filter fun other => other.name != m.name⟩

/-- How many helpers there are. -/
def size (r : Resolver) : Nat := r.modules.length

/-- The name of a module from the name of its file: one extension is dropped. -/
def moduleName (name : String) : String :=
  let cs := name.toList
  if ".dll".toList.isSuffixOf cs then String.ofList (cs.take (cs.length - 4)) else name

def find (r : Resolver) (name : String) : Except Error Module :=
  match r.modules.find? fun m => m.name == moduleName name with
  | some m => .ok m
  | none => .error (.moduleNotFound name)

/-- A reference to the one method of a helper that satisfies a query. -/
def resolve (r : Resolver) (module : String) (q : MethodQuery) : Except Error MethodRef := do
  let m ← r.find module
  return m.methodRef (← q.resolve m)

def importMethod (r : Resolver) (module : String) (q : MethodQuery) : Edit ReferenceTable Token :=
  fun references =>
    match r.resolve module q with
    | .ok method =>
      let (token, references) := references.intern (.method method)
      .ok token references
    | .error e => .error e references

end Resolver

end CilWeave
