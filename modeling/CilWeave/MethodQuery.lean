import CilWeave.Module.Names

/-
Finding the one method a description means.

A query gives the declaring type, the name and any number of discriminators of
the signature. It is resolved in a module only if exactly one method of the type
satisfies it; no method and several methods are both errors.
-/

namespace CilWeave

/-- The description of a method. What is not given is not asked for. -/
structure MethodQuery where
  /-- The full name of the declaring type. -/
  typeName : String
  /-- The name of the method. -/
  name : String
  /-- How many parameters it declares. -/
  parameterCount : Option Nat
  /-- Whether it is generic. -/
  generic : Option Bool
  /-- How many generic parameters it has. -/
  genericParameters : Option Nat
  /-- The types of its parameters. -/
  parameterTypes : Option (List TypeSig)
  /-- Its return type. -/
  returnType : Option TypeSig
  /-- Whether it is static. -/
  isStatic : Option Bool
  deriving DecidableEq, Repr, Inhabited

namespace MethodQuery

/-- Asks for every method of this name on a type. -/
def named (typeName name : String) : MethodQuery :=
  ⟨typeName, name, none, none, none, none, none, none⟩

def meets {α : Type} (wish : Option α) (test : α → Bool) : Bool :=
  match wish with
  | none => true
  | some a => test a

/-- Whether a method has the name and satisfies every discriminator. -/
def accepts (q : MethodQuery) (m : MethodDef) : Bool :=
  m.name == q.name
    && meets q.parameterCount (m.signature.parameters.length == ·)
    && meets q.generic (decide (0 < m.signature.genericParameterCount) == ·)
    && meets q.genericParameters (m.signature.genericParameterCount.toNat == ·)
    && meets q.parameterTypes (m.signature.parameters == ·)
    && meets q.returnType (m.signature.returnType == ·)
    && meets q.isStatic (m.isStatic == ·)

def discriminators (q : MethodQuery) : List String :=
  (q.isStatic.map fun s => if s then "static" else "instance").toList
    ++ (q.generic.map fun g => if g then "generic" else "non-generic").toList
    ++ (q.genericParameters.map fun n => toString n ++ " generic parameters").toList
    ++ (q.parameterCount.map fun n => toString n ++ " parameters").toList
    ++ (q.parameterTypes.map fun ts => "(" ++ ",".intercalate (TypeSig.fullNames ts) ++ ")").toList
    ++ (q.returnType.map fun t => "returns " ++ t.fullName).toList

def text (q : MethodQuery) : String :=
  let base := q.typeName ++ "::" ++ q.name
  match q.discriminators with
  | [] => base
  | ds => base ++ " (" ++ ", ".intercalate ds ++ ")"

def candidates (q : MethodQuery) (m : Module) (t : TypeDef) : List MethodDef :=
  (t.methods.toList.filterMap m.methodDef?).filter q.accepts

/-- The one method of a module that satisfies the query. -/
def resolve (q : MethodQuery) (m : Module) : Except Error MethodDef :=
  match m.findType? q.typeName with
  | none => .error (.typeNotFound q.typeName)
  | some t =>
    match q.candidates m t with
    | [method] => .ok method
    | [] => .error (.memberNotFound q.text m.name)
    | several => .error (.ambiguousMember q.text m.name several.length)

end MethodQuery

end CilWeave
