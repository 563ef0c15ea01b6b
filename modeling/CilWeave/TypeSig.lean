/-
Type and method signatures in structural form.

`TypeSig.fullName` names a type the way the runtime prints it
(`System.Int32`, `Ns.Outer/Inner`, a generic type with its arguments in angle
brackets). That name is what member references are matched by. Equality is
structural, and `TypeSig.instantiate` fills in the generic parameters of a
method.
-/

namespace CilWeave

/-- The types the runtime knows without a definition. -/
inductive Primitive where
  | void | boolean | char | i1 | u1 | i2 | u2 | i4 | u4 | i8 | u8 | r4 | r8 | string | object
  | intPtr | uintPtr
  deriving DecidableEq, Repr, Inhabited

namespace Primitive

/-- The primitive types in declaration order. -/
def all : List Primitive :=
  [.void, .boolean, .char, .i1, .u1, .i2, .u2, .i4, .u4, .i8, .u8, .r4, .r8, .string, .object,
    .intPtr, .uintPtr]

/-- The short name of the type in a module document. -/
def name : Primitive → String
  | .void => "Void"
  | .boolean => "Boolean"
  | .char => "Char"
  | .i1 => "I1"
  | .u1 => "U1"
  | .i2 => "I2"
  | .u2 => "U2"
  | .i4 => "I4"
  | .u4 => "U4"
  | .i8 => "I8"
  | .u8 => "U8"
  | .r4 => "R4"
  | .r8 => "R8"
  | .string => "String"
  | .object => "Object"
  | .intPtr => "IntPtr"
  | .uintPtr => "UIntPtr"

/-- The full name of the type. -/
def fullName : Primitive → String
  | .void => "System.Void"
  | .boolean => "System.Boolean"
  | .char => "System.Char"
  | .i1 => "System.SByte"
  | .u1 => "System.Byte"
  | .i2 => "System.Int16"
  | .u2 => "System.UInt16"
  | .i4 => "System.Int32"
  | .u4 => "System.UInt32"
  | .i8 => "System.Int64"
  | .u8 => "System.UInt64"
  | .r4 => "System.Single"
  | .r8 => "System.Double"
  | .string => "System.String"
  | .object => "System.Object"
  | .intPtr => "System.IntPtr"
  | .uintPtr => "System.UIntPtr"

/-- The primitive type of this short name. -/
def ofName? (name : String) : Option Primitive := all.find? (·.name == name)

theorem ofName?_name (p : Primitive) : ofName? p.name = some p := by cases p <;> decide

end Primitive

/-- A type as it stands in a field, local, parameter or return slot. -/
inductive TypeSig where
  /-- A type the runtime knows. -/
  | primitive (type : Primitive)
  /-- A reference type, by full name. -/
  | ofClass (name : String)
  /-- A value type, by full name. -/
  | valueType (name : String)
  /-- A one-dimensional array that counts from zero. -/
  | szArray (element : TypeSig)
  /-- A managed pointer. -/
  | byRef (element : TypeSig)
  /-- A generic type with its arguments in declaration order. -/
  | genericInst (base : TypeSig) (args : List TypeSig)
  /-- A generic parameter of the declaring type. -/
  | var (index : UInt32)
  /-- A generic parameter of the method. -/
  | mvar (index : UInt32)
  deriving Repr, Inhabited

namespace TypeSig

/-- The type `System.Void`, which only a return type may be. -/
abbrev void : TypeSig := .primitive .void

/-- The type `System.Boolean`. -/
abbrev boolean : TypeSig := .primitive .boolean

/-- The type `System.Int32`. -/
abbrev int32 : TypeSig := .primitive .i4

/-- The type `System.Single`. -/
abbrev single : TypeSig := .primitive .r4

/-- The type `System.String`. -/
abbrev string : TypeSig := .primitive .string

/-- The type `System.Object`. -/
abbrev object : TypeSig := .primitive .object

/-! Equality is structural and decidable. -/

mutual

/-- Whether two signatures are built alike. -/
def same : TypeSig → TypeSig → Bool
  | .primitive p, .primitive q => p == q
  | .ofClass m, .ofClass n => m == n
  | .valueType m, .valueType n => m == n
  | .szArray a, .szArray b => same a b
  | .byRef a, .byRef b => same a b
  | .genericInst a as, .genericInst b bs => same a b && sameAll as bs
  | .var i, .var j => i == j
  | .mvar i, .mvar j => i == j
  | _, _ => false

/-- Whether two lists of signatures are built alike. -/
def sameAll : List TypeSig → List TypeSig → Bool
  | [], [] => true
  | a :: as, b :: bs => same a b && sameAll as bs
  | _, _ => false

end

mutual

theorem same_iff : ∀ a b : TypeSig, same a b = true ↔ a = b
  | .primitive _, b | .ofClass _, b | .valueType _, b | .var _, b | .mvar _, b => by
    cases b <;> simp [same]
  | .szArray a, b | .byRef a, b => by cases b <;> simp [same, same_iff a]
  | .genericInst a as, b => by cases b <;> simp [same, same_iff a, sameAll_iff as]

theorem sameAll_iff : ∀ as bs : List TypeSig, sameAll as bs = true ↔ as = bs
  | [], bs => by cases bs <;> simp [sameAll]
  | a :: as, bs => by cases bs <;> simp [sameAll, same_iff a, sameAll_iff as]

end

instance : DecidableEq TypeSig := fun a b => decidable_of_iff _ (same_iff a b)

mutual

def fullName : TypeSig → String
  | .primitive p => p.fullName
  | .ofClass name => name
  | .valueType name => name
  | .szArray element => element.fullName ++ "[]"
  | .byRef element => element.fullName ++ "&"
  | .genericInst base args =>
    base.fullName ++ "<" ++ ",".intercalate (fullNames args) ++ ">"
  | .var index => "!" ++ toString index.toNat
  | .mvar index => "!!" ++ toString index.toNat

def fullNames : List TypeSig → List String
  | [] => []
  | t :: ts => t.fullName :: fullNames ts

end

def isVoid : TypeSig → Bool
  | .primitive .void => true
  | _ => false

/-- Whether the type is a managed pointer. -/
def isByRef : TypeSig → Bool
  | .byRef _ => true
  | _ => false

mutual

/-- The type with `args[n]` for the method's generic parameter `n`. A parameter
without an argument stays open, and so does the base of a generic type. -/
def instantiate (args : List TypeSig) : TypeSig → TypeSig
  | .mvar index => args[index.toNat]?.getD (.mvar index)
  | .szArray element => .szArray (instantiate args element)
  | .byRef element => .byRef (instantiate args element)
  | .genericInst base inner => .genericInst base (instantiateAll args inner)
  | .primitive p => .primitive p
  | .ofClass name => .ofClass name
  | .valueType name => .valueType name
  | .var index => .var index

def instantiateAll (args : List TypeSig) : List TypeSig → List TypeSig
  | [] => []
  | t :: ts => instantiate args t :: instantiateAll args ts

end

theorem instantiateAll_eq_map (args ts : List TypeSig) :
    instantiateAll args ts = ts.map (instantiate args) := by
  induction ts with
  | nil => rfl
  | cons t ts ih => simp [instantiateAll, ih]

end TypeSig

/-- The calling convention and shape of a method. -/
structure MethodSig where
  /-- Whether the method takes an implicit `this`. -/
  hasThis : Bool
  /-- The declared return type. -/
  returnType : TypeSig
  /-- The declared parameter types, without `this`. -/
  parameters : List TypeSig
  /-- How many generic parameters the method declares. -/
  genericParameterCount : UInt32
  deriving DecidableEq, Repr, Inhabited

namespace MethodSig

def forStatic (returnType : TypeSig) (parameters : List TypeSig) : MethodSig :=
  ⟨false, returnType, parameters, 0⟩

def forInstance (returnType : TypeSig) (parameters : List TypeSig) : MethodSig :=
  ⟨true, returnType, parameters, 0⟩

/-- How many arguments the method takes, with `this`. -/
def argumentCount (sig : MethodSig) : Nat :=
  sig.parameters.length + if sig.hasThis then 1 else 0

/-- The names of the parameter types, separated by commas. -/
def parameterList (sig : MethodSig) : String :=
  ",".intercalate (TypeSig.fullNames sig.parameters)

end MethodSig

end CilWeave
