import CilWeave.TypeSig

/-
Member references: a method or a field described by its declaring type, name
and signature. Call sites are matched by this description and new operands are
built from it, so two references are the same member exactly when they are
equal as values.
-/

namespace CilWeave

/-- A reference to a method, possibly an instantiation of a generic method. -/
structure MethodRef where
  /-- The type that declares the method. -/
  declaringType : TypeSig
  /-- The simple name. -/
  name : String
  /-- The declared signature, with generic parameters left open. -/
  signature : MethodSig
  /-- The arguments of a generic instantiation, else empty. -/
  genericArguments : List TypeSig
  deriving DecidableEq, Repr, Inhabited

namespace MethodRef

/-- A reference to a method that instantiates nothing. -/
def plain (declaringType : TypeSig) (name : String) (signature : MethodSig) : MethodRef :=
  ⟨declaringType, name, signature, []⟩

def instantiate (method : MethodRef) (arguments : List TypeSig) : MethodRef :=
  { method with genericArguments := arguments }

def isGenericInstantiation (method : MethodRef) : Bool := !method.genericArguments.isEmpty

/-- The return type with the generic arguments filled in. -/
def returnType (method : MethodRef) : TypeSig :=
  method.signature.returnType.instantiate method.genericArguments

/-- The parameter types with the generic arguments filled in. -/
def parameterTypes (method : MethodRef) : List TypeSig :=
  TypeSig.instantiateAll method.genericArguments method.signature.parameters

/-- How many values a call of the method pops, with `this`. -/
def pops (method : MethodRef) : Nat := method.signature.argumentCount

/-- The full name, as in `System.Int32 Ns.Type::Name<System.Int32>(System.String)`. -/
def fullName (method : MethodRef) : String :=
  let generic :=
    if method.genericArguments.isEmpty then ""
    else "<" ++ ",".intercalate (TypeSig.fullNames method.genericArguments) ++ ">"
  method.signature.returnType.fullName ++ " " ++ method.declaringType.fullName ++ "::"
    ++ method.name ++ generic ++ "(" ++ method.signature.parameterList ++ ")"

end MethodRef

/-- A reference to a field. -/
structure FieldRef where
  /-- The type that declares the field. -/
  declaringType : TypeSig
  /-- The name. -/
  name : String
  /-- The declared type. -/
  fieldType : TypeSig
  deriving DecidableEq, Repr, Inhabited

/-- The full name, as in `System.Int32 Ns.Type::field`. -/
def FieldRef.fullName (field : FieldRef) : String :=
  field.fieldType.fullName ++ " " ++ field.declaringType.fullName ++ "::" ++ field.name

/-- A reference to a method or a field. -/
inductive MemberRef where
  /-- A method or an instantiation of one. -/
  | method (method : MethodRef)
  /-- A field. -/
  | field (field : FieldRef)
  deriving DecidableEq, Repr, Inhabited

namespace MemberRef

def declaringType : MemberRef → TypeSig
  | .method m => m.declaringType
  | .field f => f.declaringType

def name : MemberRef → String
  | .method m => m.name
  | .field f => f.name

def fullName : MemberRef → String
  | .method m => m.fullName
  | .field f => f.fullName

end MemberRef

end CilWeave
