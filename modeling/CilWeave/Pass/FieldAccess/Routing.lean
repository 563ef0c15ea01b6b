import CilWeave.Pass.FieldAccess.Accessors
import CilWeave.Rewrite.Rule

/-
The rule that routes the access to tracked fields through their accessors.

A load becomes a call of the getter, and a store keeps the value in a scratch
local while the name is pushed below it. The address of a field can only be
replaced where the very next instruction hands it to a static method that takes
nothing else and returns nothing: then the callee gets the address of a scratch
local, and what it leaves there is written back. Nothing may jump to that call,
since it would come without the address. Any other load of an address is missed.
-/

namespace CilWeave

/-- The tracked fields and their accessors. -/
structure FieldRouting where
  /-- The full name of the tracked type. -/
  trackedType : String
  /-- The names of its tracked fields. -/
  fields : List String
  /-- The accessors for them. -/
  accessors : Accessors
  deriving DecidableEq, Repr, Inhabited

namespace FieldRouting

def isTracked (field : FieldDef) : Bool :=
  !field.isPrivate && !field.isStatic && !field.isNotSerialized

/-- The routing for a module that defines the tracked type. -/
def ofModule (f : FieldAccess) (m : Module) (helpers : Resolver) :
    Except Error FieldRouting := do
  match m.findType? f.trackedType with
  | none => .error (.typeNotFound f.trackedType)
  | some tracked =>
    let fields := (tracked.fields.toList.filterMap m.fieldDef?).filter isTracked
    return ⟨f.trackedType, fields.map FieldDef.name, ← Accessors.ofType f m tracked helpers⟩

def tracks (r : FieldRouting) (field : FieldRef) : Bool :=
  field.declaringType.fullName == r.trackedType && r.fields.contains field.name

/-- Whether an instruction has access to a tracked field. -/
def applies (r : FieldRouting) (references : ReferenceTable) (i : Instruction) : Bool :=
  (i.op == .ldfld || i.op == .stfld || i.op == .ldflda) &&
    match i.token? with
    | some t =>
      match references.field t with
      | .ok field => r.tracks field
      | .error _ => false
    | none => false

def callOf (accessor : OpCode × MethodRef) : Edit (Supplies Unit) Instruction := do
  return .of accessor.1 (.token (← Supplies.importMember (.method accessor.2)))

/-- What takes the place of the load of a field. -/
def load (r : FieldRouting) (field : FieldRef) : Edit (Supplies Unit) Replacement := do
  let get ← callOf (r.accessors.getter field.fieldType)
  return .of [.ldstr field.name, get]

def store (r : FieldRouting) (field : FieldRef) : Edit (Supplies Unit) Replacement := do
  let value ← Supplies.scratchLocal field.fieldType
  let set ← callOf (r.accessors.setter field.fieldType)
  return .of [.stloc value, .ldstr field.name, .ldloc value, set]

/-- What takes the place of the load of the address of a field, with what comes after
the call that is handed the address. -/
def address (r : FieldRouting) (field : FieldRef) : Edit (Supplies Unit) Replacement := do
  let value ← Supplies.scratchLocal field.fieldType
  let get ← callOf (r.accessors.getter field.fieldType)
  let set ← callOf (r.accessors.setter field.fieldType)
  return ⟨[.plain .dup, .ldstr field.name, get, .stloc value, .ldloca value],
    [.ldstr field.name, .ldloc value, set]⟩

/-- Whether a method takes one address and nothing else, and returns nothing. -/
def takesOneAddress (method : MethodRef) : Bool :=
  !method.signature.hasThis && method.returnType.isVoid &&
    match method.parameterTypes with
    | [parameter] => parameter.isByRef
    | _ => false

/-- Whether the instruction after `site` is a call that only ever gets the address
that is loaded at `site`. -/
def handsOn (body : MethodBody) (site : InstrId) (references : ReferenceTable) : Bool :=
  match body.code.next? site with
  | none => false
  | some next =>
    match body.code.get? next with
    | none => false
    | some i =>
      i.op == .call &&
        match i.token? with
        | none => false
        | some t =>
          match references.method t with
          | .error _ => false
          | .ok callee => takesOneAddress callee && !body.referenced.contains next

/-- What takes the place of an access, by its opcode. -/
def replacement (r : FieldRouting) (body : MethodBody) (site : InstrId) (op : OpCode)
    (field : FieldRef) : Edit (Supplies Unit) (Option Replacement) := fun s =>
  match op with
  | .ldfld => (some <$> r.load field) s
  | .stfld => (some <$> r.store field) s
  | .ldflda =>
    if handsOn body site s.references then (some <$> r.address field) s else .ok none s
  | _ => .ok none s

/-- The rule that routes the access to tracked fields through their accessors. -/
def rule (r : FieldRouting) : RewriteRule Unit where
  applies _ references i := r.applies references i
  build body site s :=
    match body.instruction site with
    | .error e => .error e s
    | .ok i =>
      match i.token? with
      | none => .error (.invalidOperand i.op "field token") s
      | some t =>
        match s.references.field t with
        | .error e => .error e s
        | .ok field => r.replacement body site i.op field s

end FieldRouting

end CilWeave
