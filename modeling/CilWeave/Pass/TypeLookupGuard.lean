import CilWeave.Pass.Sweep

/-
Guards for a lookup of types by name.

Names of types that do not exist any more make the lookup search everything that
is loaded. So the static constructor of the type with the lookup gets a last step
that enters the right type for a renamed one, and the lookup itself answers null at
once for a name that can never be a type.
-/

namespace CilWeave

/-- Where the lookup is, and which names to guard. -/
structure TypeLookupGuard where
  /-- The simple name of the type with the lookup. -/
  typeName : String
  /-- The static field with the known types by name. -/
  lookupField : String
  /-- The method that looks a type up by its first argument. -/
  lookupMethod : String
  /-- The name to enter. -/
  seedName : String
  /-- The qualified name of the type to enter under it. -/
  seedType : String
  /-- The name to refuse. -/
  rejected : String
  deriving DecidableEq, Repr, Inhabited

namespace TypeLookupGuard

/-- The lookup of the state machine runtime. -/
def standard : TypeLookupGuard :=
  ⟨"ReflectionUtils", "typeLookup", "GetGlobalType", "TMProOldOld.TextAlignmentOptions",
    "TMProOld.TextAlignmentOptions, Assembly-CSharp", "HutongGames.PlayMaker.Actions."⟩

def typeClass : TypeSig := .ofClass "System.Type"

/-- The method that answers the type of a qualified name. -/
def getType : MethodRef := .plain typeClass "GetType" (.forStatic typeClass [.string])

/-- The method that enters a value into a dictionary. -/
def setItem (dictionary : TypeSig) : MethodRef :=
  .plain dictionary "set_Item" (.forInstance .void [.var 0, .var 1])

/-- The method that compares two strings. -/
def stringEquality : MethodRef :=
  .plain .string "op_Equality" (.forStatic .boolean [.string, .string])

def lastReturn? (body : MethodBody) : Option InstrId :=
  body.code.ids.reverse.find? fun id =>
    match body.code.get? id with
    | some i => i.op == .ret
    | none => false

/-- Enters the type before the last return of a static constructor. -/
def seed (g : TypeLookupGuard) (lookup : FieldRef) : Edit (Draft Unit) Bool := fun d =>
  match lastReturn? d.body with
  | none => .ok false d
  | some site =>
    let edit : Edit (Draft Unit) Bool := do
      let field ← Draft.importMember (.field lookup)
      let get ← Draft.importMember (.method getType)
      let set ← Draft.importMember (.method (setItem lookup.fieldType))
      Draft.onBody (MethodBody.replace site (.of
        [.of .ldsfld (.token field), .ldstr g.seedName, .ldstr g.seedType, .call get,
          .callvirt set, .plain .ret]))
      return true
    edit d

/-- Puts instructions in front of one of the body, in their order. -/
def insertAllBefore (anchor : InstrId) : List Instruction → Edit MethodBody Unit
  | [] => pure ()
  | i :: rest => do
    let _ ← MethodBody.onCode (InstructionList.insertBefore anchor i)
    insertAllBefore anchor rest

/-- The code that answers null if the first argument is a name, and goes on to `first`
otherwise. -/
def guardCode (rejected : String) (equality : Token) (first : InstrId) : List Instruction :=
  [.ldarg 0, .ldstr rejected, .call equality, .branch .brfalse first, .plain .ldnull,
    .plain .ret]

/-- Refuses a name at the start of a lookup. -/
def refuse (g : TypeLookupGuard) : Edit (Draft Unit) Bool := fun d =>
  match d.body.code.first? with
  | none => .ok false d
  | some first =>
    let edit : Edit (Draft Unit) Bool := do
      let equality ← Draft.importMember (.method stringEquality)
      Draft.onBody (insertAllBefore first (guardCode g.rejected equality first))
      return true
    edit d

/-- Edits the method of a token, and counts what came of it. -/
def guardMethod (t : Token) (edit : Edit (Draft Unit) Bool) (report : Report) :
    Edit Module Report := fun m =>
  let outcome : Edit Module Bool := do
    let method ← Module.methodAt t
    Module.editMethod t method false fun returnType => Draft.transact returnType id edit
  match outcome m with
  | .ok true m => .ok (report.patched 1 0) m
  | .ok false m => .ok report m
  | .error e m => if e.isMethodScoped then .ok report.failed m else .error e m

def methodsOf (m : Module) (t : TypeDef) : List MethodDef :=
  t.methods.toList.filterMap m.methodDef?

def staticConstructor? (m : Module) (t : TypeDef) : Option Token :=
  ((methodsOf m t).find? fun method =>
    method.isConstructor && method.isStatic && method.hasBody).map MethodDef.token

def lookup? (g : TypeLookupGuard) (m : Module) (t : TypeDef) : Option Token :=
  ((methodsOf m t).find? fun method =>
    method.name == g.lookupMethod && method.hasBody).map MethodDef.token

def knownTypes? (g : TypeLookupGuard) (m : Module) (t : TypeDef) : Option FieldRef :=
  ((t.fields.toList.filterMap m.fieldDef?).find? fun field =>
    field.name == g.lookupField && field.isStatic).map m.fieldRef

/-- Installs the guards. Without a static constructor nothing is done. -/
def run (g : TypeLookupGuard) : Edit Module Report := fun m =>
  match (m.types.toList.filter fun t => !t.isNested).find? fun t => t.name == g.typeName with
  | none => .ok .nothing m
  | some t =>
    match staticConstructor? m t with
    | none => .ok .nothing m
    | some constructor =>
      let seeding : Edit Module Report :=
        match g.knownTypes? m t with
        | some field => guardMethod constructor (g.seed field) .nothing
        | none => pure .nothing
      let lookup? := g.lookup? m t
      match seeding m with
      | .error e m => .error e m
      | .ok report m =>
        match lookup? with
        | some lookup => guardMethod lookup g.refuse report m
        | none => .ok report m

end TypeLookupGuard

end CilWeave
