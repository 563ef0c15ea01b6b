import CilWeave.MethodQuery
import CilWeave.Pass.Sweep

/-
Routing a reflective read of fields through the getter by name.

The method that collects the values of all fields of a type reads each of them
from its description: it loads the description and the object, asks the
description for the value, and unboxes it. The four instructions become a call of
the generic getter with the object and the name of the field; no instruction is
added or removed, so whatever jumps to one of them still does.
-/

namespace CilWeave

namespace ReflectiveGetter

/-- The type with the method to patch and with the generic getter. -/
def extensionsType : String := "TeamCherry.SharedUtils.VariableExtensions"

def fieldInfo : TypeSig := .ofClass "System.Reflection.FieldInfo"

/-- The method that answers the name of a described field. -/
def getName : MethodRef := .plain fieldInfo "get_Name" (.forInstance .string [])

/-- Whether the second parameter of a method is a predicate. -/
def takesSelector (method : MethodDef) : Bool :=
  match method.signature.parameters with
  | _ :: .genericInst base _ :: _ => base.fullName == "System.Func`2"
  | _ => false

/-- Whether an instruction asks the description of a field for its value. -/
def asksForValue (references : ReferenceTable) (i : Instruction) : Bool :=
  i.op == .callvirt &&
    match i.token? with
    | some t =>
      match references.method t with
      | .ok method => method.name == "GetValue" && method.declaringType == fieldInfo
      | .error _ => false
    | none => false

/-- The four instructions of a reflective read. -/
structure Window where
  /-- Loads the description of the field. -/
  loadField : InstrId
  /-- Loads the object. -/
  loadObject : InstrId
  /-- Asks for the value. -/
  getValue : InstrId
  /-- Unboxes the value. -/
  unbox : InstrId
  deriving DecidableEq, Repr, Inhabited

/-- The first reflective read of a body; the error names the method. -/
def findWindow (body : MethodBody) (references : ReferenceTable) (methodName : String) :
    Except Error Window :=
  let unexpected (text : String) : Except Error Window := .error (.unexpectedShape methodName text)
  let op? (id : InstrId) : Option OpCode := (body.code.get? id).map Instruction.op
  match (body.code.entries.find? fun (_, i) => asksForValue references i).map (·.1) with
  | none => unexpected "no call to FieldInfo::GetValue"
  | some getValue =>
    let loadObject? := body.code.prev? getValue
    match loadObject?.bind body.code.prev?, loadObject?, body.code.next? getValue with
    | some loadField, some loadObject, some unbox =>
      if op? loadField != some .ldloc then unexpected "first instruction is not ldloc"
      else if op? loadObject != some .ldarg then unexpected "second instruction is not ldarg"
      else if op? unbox != some .unbox && op? unbox != some .unboxAny then
        unexpected "fourth instruction is not unbox"
      else .ok ⟨loadField, loadObject, getValue, unbox⟩
    | _, _, _ => unexpected "GetValue is not surrounded by its operands"

/-- Rewrites a reflective read: the two loads change places, the description is asked
for its name, and the getter takes the place of the unboxing. -/
def rewriteWindow (w : Window) (getName getVariable : Token) : Edit MethodBody Unit := fun b =>
  match b.instruction w.loadField, b.instruction w.loadObject with
  | .ok first, .ok second =>
    let b := b.modifyAt w.loadField fun _ => second
    let b := b.modifyAt w.loadObject fun _ => first
    let b := b.modifyAt w.getValue fun _ => .callvirt getName
    .ok () (b.modifyAt w.unbox fun _ => .call getVariable)
  | .error e, _ => .error e b
  | _, .error e => .error e b

def unboxedType? (body : MethodBody) (w : Window) : Option TypeSig :=
  match (body.code.get? w.unbox).map Instruction.operand with
  | some (.type value) => some value
  | _ => none

/-- Routes the reflective read of a body through a generic getter. -/
def route (getter : MethodRef) (methodName : String) : Edit (Draft Unit) Bool := fun d =>
  match findWindow d.body d.references methodName with
  | .error e => .error e d
  | .ok w =>
    match unboxedType? d.body w with
    | none => .error (.unexpectedShape methodName "unbox without a type operand") d
    | some value =>
      let edit : Edit (Draft Unit) Bool := do
        let getName ← Draft.importMember (.method getName)
        let getVariable ← Draft.importMember (.method (getter.instantiate [value]))
        Draft.onBody (rewriteWindow w getName getVariable)
        return true
      edit d

/-- The method that collects values of fields. -/
def collector? (m : Module) (t : TypeDef) : Option Token :=
  ((t.methods.toList.filterMap m.methodDef?).find? fun method =>
    method.name == "GetVariables" && method.hasBody && takesSelector method).map MethodDef.token

def getter? (m : Module) : Option MethodRef :=
  let query := { MethodQuery.named extensionsType "GetVariable" with
    genericParameters := some 1
    parameterCount := some 2 }
  match query.resolve m with
  | .ok method => some (m.methodRef method)
  | .error _ => none

/-- Routes the reflective read of the module. Any defect of the method ends the pass. -/
def run : Edit Module Report := fun m =>
  match m.findType? extensionsType with
  | none => .error (.typeNotFound extensionsType) m
  | some t =>
    match collector? m t, getter? m with
    | some target, some getter =>
      let edit : Edit Module Report := do
        let method ← Module.methodAt target
        let _ ← Module.editMethod target method false fun returnType =>
          Draft.transact returnType id (route getter (m.describeMethod target))
        return Report.nothing.patched 1 0
      edit m
    | _, _ => .ok .nothing m

end ReflectiveGetter

end CilWeave
