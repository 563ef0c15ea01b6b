import CilWeave.Body
import CilWeave.ReferenceTable

/-
Modules: the definitions of one assembly and its table of references.

Types own their fields, methods and nested types by token, and every definition
stands in the table its token points into, at the row of the token. A module is
built with the `add` functions, which refuse an owner that is not one of its
types before they change anything.
-/

namespace CilWeave

/-- The flags of a type definition. -/
structure TypeFlags where
  /-- The word. -/
  bits : UInt32
  deriving DecidableEq, Repr, Inhabited

namespace TypeFlags

def names : FlagNames :=
  ⟨[("VISIBILITY_MASK", 0x7), ("PUBLIC", 0x1), ("NESTED_PUBLIC", 0x2), ("INTERFACE", 0x20),
    ("ABSTRACT", 0x80), ("SEALED", 0x100)], 32⟩

def isPublic : TypeFlags := ⟨0x1⟩

end TypeFlags

/-- The flags of a field definition. -/
structure FieldFlags where
  /-- The word. -/
  bits : UInt16
  deriving DecidableEq, Repr, Inhabited

namespace FieldFlags

def names : FlagNames :=
  ⟨[("FIELD_ACCESS_MASK", 0x7), ("PRIVATE", 0x1), ("FAMILY", 0x4), ("PUBLIC", 0x6),
    ("STATIC", 0x10), ("INIT_ONLY", 0x20), ("NOT_SERIALIZED", 0x80)], 16⟩

end FieldFlags

/-- The flags of a method definition. -/
structure MethodFlags where
  /-- The word. -/
  bits : UInt16
  deriving DecidableEq, Repr, Inhabited

namespace MethodFlags

def names : FlagNames :=
  ⟨[("MEMBER_ACCESS_MASK", 0x7), ("PRIVATE", 0x1), ("PUBLIC", 0x6), ("STATIC", 0x10),
    ("VIRTUAL", 0x40), ("ABSTRACT", 0x400), ("SPECIAL_NAME", 0x800),
    ("RT_SPECIAL_NAME", 0x1000)], 16⟩

def isStatic (flags : MethodFlags) : Bool := flags.bits &&& 0x10 == 0x10

end MethodFlags

/-- A type definition. -/
structure TypeDef where
  /-- The token of the type. -/
  token : Token
  /-- The namespace, empty for a nested type. -/
  nameSpace : String
  /-- The simple name. -/
  name : String
  /-- The flags. -/
  flags : TypeFlags
  /-- The type around a nested type. -/
  enclosing : Option Token
  /-- The types nested in this one, in declaration order. -/
  nestedTypes : Array Token
  /-- The fields in declaration order. -/
  fields : Array Token
  /-- The methods in declaration order. -/
  methods : Array Token
  deriving DecidableEq, Repr, Inhabited

namespace TypeDef

def isInterface (t : TypeDef) : Bool := t.flags.bits &&& 0x20 == 0x20

def isNested (t : TypeDef) : Bool := t.enclosing.isSome

end TypeDef

/-- A field definition. -/
structure FieldDef where
  /-- The token of the field. -/
  token : Token
  /-- The type that declares the field. -/
  declaringType : Token
  /-- The name. -/
  name : String
  /-- The type of the field. -/
  fieldType : TypeSig
  /-- The flags. -/
  flags : FieldFlags
  /-- The full names of the attributes on the field. -/
  customAttributes : List String
  deriving DecidableEq, Repr, Inhabited

namespace FieldDef

/-- Whether only the declaring type can use the field. -/
def isPrivate (f : FieldDef) : Bool := f.flags.bits &&& 0x7 == 0x1

def isStatic (f : FieldDef) : Bool := f.flags.bits &&& 0x10 == 0x10

/-- Whether the field is marked as not persisted, by flag or by attribute. -/
def isNotSerialized (f : FieldDef) : Bool :=
  f.flags.bits &&& 0x80 == 0x80 || f.customAttributes.contains "System.NonSerializedAttribute"

end FieldDef

/-- A method definition. -/
structure MethodDef where
  /-- The token of the method. -/
  token : Token
  /-- The type that declares the method. -/
  declaringType : Token
  /-- The name. -/
  name : String
  /-- The flags. -/
  flags : MethodFlags
  /-- The signature. -/
  signature : MethodSig
  /-- The body; abstract and extern methods have none. -/
  body : Option MethodBody
  deriving Inhabited

namespace MethodDef

def isConstructor (m : MethodDef) : Bool := m.name == ".ctor" || m.name == ".cctor"

def isStatic (m : MethodDef) : Bool := m.flags.isStatic

def hasBody (m : MethodDef) : Bool := m.body.isSome

end MethodDef

/-- A module. -/
structure Module where
  /-- The name of the assembly, without extension. -/
  name : String
  /-- The type definitions by row. -/
  types : Array TypeDef
  /-- The field definitions by row. -/
  fields : Array FieldDef
  /-- The method definitions by row. -/
  methods : Array MethodDef
  /-- The imported references. -/
  references : ReferenceTable
  deriving Inhabited

namespace Module

def empty (name : String) : Module := ⟨name, #[], #[], #[], .empty⟩

def fileName (m : Module) : String := m.name ++ ".dll"

def typeDef? (m : Module) (t : Token) : Option TypeDef := do m.types[← t.indexIn? .typeDef]?

def fieldDef? (m : Module) (t : Token) : Option FieldDef := do m.fields[← t.indexIn? .field]?

def methodDef? (m : Module) (t : Token) : Option MethodDef := do
  m.methods[← t.indexIn? .methodDef]?

def setMethod (m : Module) (t : Token) (method : MethodDef) : Module :=
  match t.indexIn? .methodDef with
  | some n => { m with methods := m.methods.setIfInBounds n method }
  | none => m

def importMember (m : Module) (member : MemberRef) : Token × Module :=
  let (token, references) := m.references.intern member
  (token, { m with references })

/-- Changes one of the types. -/
def modifyType (owner : Token) (f : TypeDef → TypeDef) : Edit Module Unit := fun m =>
  match owner.indexIn? .typeDef with
  | some n =>
    if n < m.types.size then .ok () { m with types := m.types.modify n f }
    else .error (.typeNotFound owner.text) m
  | none => .error (.typeNotFound owner.text) m

def addType (m : Module) (nameSpace name : String) (flags : TypeFlags) : Token × Module :=
  let token := Token.ofIndex .typeDef m.types.size
  (token, { m with
    types := m.types.push ⟨token, nameSpace, name, flags, none, #[], #[], #[]⟩ })

def addNestedType (enclosing : Token) (name : String) (flags : TypeFlags) :
    Edit Module Token := do
  let token := Token.ofIndex .typeDef (← get).types.size
  modifyType enclosing fun t => { t with nestedTypes := t.nestedTypes.push token }
  modify fun m => { m with
    types := m.types.push ⟨token, "", name, flags, some enclosing, #[], #[], #[]⟩ }
  return token

def addField (owner : Token) (name : String) (fieldType : TypeSig) (flags : FieldFlags)
    (customAttributes : List String) : Edit Module Token := do
  let token := Token.ofIndex .field (← get).fields.size
  modifyType owner fun t => { t with fields := t.fields.push token }
  modify fun m => { m with
    fields := m.fields.push ⟨token, owner, name, fieldType, flags, customAttributes⟩ }
  return token

/-- Adds a method; its token. A method takes `this` unless it is static, whatever the
signature says. -/
def addMethod (owner : Token) (name : String) (flags : MethodFlags) (signature : MethodSig)
    (body : Option MethodBody) : Edit Module Token := do
  let token := Token.ofIndex .methodDef (← get).methods.size
  modifyType owner fun t => { t with methods := t.methods.push token }
  let signature := { signature with hasThis := !flags.isStatic }
  modify fun m => { m with
    methods := m.methods.push ⟨token, owner, name, flags, signature, body⟩ }
  return token

end Module

end CilWeave
