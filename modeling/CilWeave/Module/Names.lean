import CilWeave.Module.Basic

/-
The full names of the definitions of a module, and looking types up by name.

The name of a nested type starts with the name of the type around it. A document
may state any links between types, so the chain of enclosing types need not end;
then the type has no full name.
-/

namespace CilWeave

namespace Module

/-- The type around a nested type. -/
def enclosing? (m : Module) (t : TypeDef) : Option TypeDef := t.enclosing.bind m.typeDef?

/-- The full name of a type with at most `depth` types around it. -/
def nameWithin? (m : Module) : (depth : Nat) → TypeDef → Option String
  | depth, t =>
    match m.enclosing? t with
    | none => some (if t.nameSpace.isEmpty then t.name else t.nameSpace ++ "." ++ t.name)
    | some outer =>
      match depth with
      | 0 => none
      | depth + 1 => (m.nameWithin? depth outer).map fun name => name ++ "/" ++ t.name

/-- The full name of a type, unless the chain of types around it does not end. A
chain that ends meets no type twice. -/
def typeFullName? (m : Module) (t : TypeDef) : Option String := m.nameWithin? m.types.size t

/-- The full name of a type, `Ns.Outer/Inner` for a nested one. -/
def typeFullName (m : Module) (t : TypeDef) : String := (m.typeFullName? t).getD t.name

def findType? (m : Module) (fullName : String) : Option TypeDef :=
  m.types.find? fun t => m.typeFullName t == fullName

/-- The signature of a type defined here. -/
def typeSig (m : Module) (t : TypeDef) : TypeSig := .ofClass (m.typeFullName t)

/-- The signature of the type a token names; a token that names none stands for
itself. -/
def declaringTypeSig (m : Module) (t : Token) : TypeSig :=
  match m.typeDef? t with
  | some type => m.typeSig type
  | none => .ofClass t.text

/-- A reference to a method defined here. -/
def methodRef (m : Module) (method : MethodDef) : MethodRef :=
  .plain (m.declaringTypeSig method.declaringType) method.name method.signature

/-- A reference to a field defined here. -/
def fieldRef (m : Module) (field : FieldDef) : FieldRef :=
  ⟨m.declaringTypeSig field.declaringType, field.name, field.fieldType⟩

/-- The full name of a method, `System.Void Ns.Type::Name(System.String)`. -/
def methodFullName (m : Module) (method : MethodDef) : String := (m.methodRef method).fullName

end Module

end CilWeave
