import CilWeave.Resolver

/-
The accessors that take the place of direct field access.

Fields are read and written by name. For some types of fields the tracked type
declares accessors itself; these are instance methods and called virtually. For
all other types there is a pair of generic accessors, which are static and
instantiated for the type of the field.
-/

namespace CilWeave

/-- Which type is tracked and where its accessors are. -/
structure FieldAccess where
  /-- The full name of the type whose fields are tracked. -/
  trackedType : String
  /-- Methods of the tracked type that keep direct access, as constructors do. -/
  excludedMethods : List String
  /-- What the names of the declared accessors end in, after `Get` and `Set`. -/
  suffixes : List String
  /-- The helper module of the generic accessors. -/
  genericModule : String
  /-- The full name of the type that declares the generic accessors. -/
  genericType : String
  /-- The generic getter, which takes the object and the name. -/
  genericGetter : String
  /-- The generic setter, which takes the object, the name and the value. -/
  genericSetter : String
  deriving DecidableEq, Repr, Inhabited

namespace FieldAccess

/-- The accessors of a tracked type under their usual names. -/
def tracking (type : String) : FieldAccess :=
  ⟨type, ["SetupNewPlayerData", "SetupExistingPlayerData", "OnUpdatedVariable"],
    ["Bool", "String", "Float", "Int", "Vector3"], "TeamCherry.SharedUtils",
    "TeamCherry.SharedUtils.VariableExtensions", "GetVariable", "SetVariable"⟩

/-- The tracked type that holds saved games. -/
def standard : FieldAccess := tracking "PlayerData"

/-- Whether a method of a type keeps direct access. -/
def isExcluded (f : FieldAccess) (typeName : String) (method : MethodDef) : Bool :=
  typeName == f.trackedType && (method.isConstructor || f.excludedMethods.contains method.name)

/-- What follows `Get` or `Set` in the name of an accessor. -/
def suffix? (start name : String) : Option String :=
  if start.toList.isPrefixOf name.toList then
    some (String.ofList (name.toList.drop start.length))
  else none

/-- The type whose values a method of the tracked type gets. -/
def gets? (f : FieldAccess) (method : MethodDef) : Option TypeSig :=
  match suffix? "Get" method.name with
  | some ending =>
    if f.suffixes.contains ending && method.signature.parameters.length == 1 then
      some method.signature.returnType
    else none
  | none => none

/-- The type whose values a method of the tracked type sets. -/
def sets? (f : FieldAccess) (method : MethodDef) : Option TypeSig :=
  match suffix? "Set" method.name with
  | some ending =>
    match method.signature.parameters with
    | [_, value] => if f.suffixes.contains ending then some value else none
    | _ => none
  | none => none

end FieldAccess

/-- The accessors for the fields of a tracked type. -/
structure Accessors where
  /-- The declared getters by type of value; the first one of a type counts. -/
  getters : List (TypeSig × MethodRef)
  /-- The declared setters by type of value; the first one of a type counts. -/
  setters : List (TypeSig × MethodRef)
  /-- The generic getter. -/
  genericGetter : MethodRef
  /-- The generic setter. -/
  genericSetter : MethodRef
  deriving DecidableEq, Repr, Inhabited

namespace Accessors

/-- The accessors of a tracked type: those it declares, and the generic ones of a
helper module. -/
def ofType (f : FieldAccess) (m : Module) (tracked : TypeDef) (helpers : Resolver) :
    Except Error Accessors := do
  let methods := tracked.methods.toList.filterMap m.methodDef?
  let declared (value? : MethodDef → Option TypeSig) :=
    methods.filterMap fun method => (value? method).map fun value => (value, m.methodRef method)
  let generic (name : String) (count : Nat) := helpers.resolve f.genericModule
    { MethodQuery.named f.genericType name with
      genericParameters := some 1
      parameterCount := some count }
  return ⟨declared f.gets?, declared f.sets?, ← generic f.genericGetter 2,
    ← generic f.genericSetter 3⟩

/-- The accessor for values of a type among the declared ones, else the generic one. -/
def choose (declared : List (TypeSig × MethodRef)) (generic : MethodRef) (value : TypeSig) :
    OpCode × MethodRef :=
  match declared.find? (·.1 == value) with
  | some (_, method) => (.callvirt, method)
  | none => (.call, generic.instantiate [value])

/-- How a value of a type is got: the opcode of the call and the method. -/
def getter (a : Accessors) (value : TypeSig) : OpCode × MethodRef :=
  choose a.getters a.genericGetter value

/-- How a value of a type is set: the opcode of the call and the method. -/
def setter (a : Accessors) (value : TypeSig) : OpCode × MethodRef :=
  choose a.setters a.genericSetter value

end Accessors

end CilWeave
