import CilWeave.Proofs.Encoding.Recoding
import CilWeave.Proofs.InstructionList.Order
import CilWeave.StackDepth

/-
A machine that runs one method body.

The machine has the arguments and local variables of one call, an evaluation stack and
a heap of objects with named fields. A managed pointer names an argument, a local or a
field. What the body calls is not run: a `World` says what the accessors by name are,
what a method makes of the one place whose address it is handed, and what everything
else does, access to a field of what is no object included. A called method sees its
arguments, the places of the call they point to, and the heap, and nothing else of the
call that runs.

`Does` is the effect of one instruction that goes on to the next, `Step` one step of the
machine and `Runs` a run to the end. There are no exceptions: where one would be thrown
the machine has no step, so a run that ends met none.
-/

namespace CilWeave

/-! ## Instructions as they are run -/

/-- What an instruction says, wherever it is laid out: its expanded form. -/
def Instruction.said (i : Instruction) : Instruction := .of i.expanded.op i.expanded.operand

theorem Instruction.saysSame_iff {i i' : Instruction} : i'.SaysSame i ↔ i'.said = i.said := by
  unfold SaysSame said of
  constructor
  · rintro ⟨h, h'⟩; rw [h, h']
  · intro h; cases h' : i.expanded; cases h'' : i'.expanded; simp_all

theorem Instruction.said_recode (i first : Instruction) :
    (i.recode first.op first.operand).said = first.said :=
  saysSame_iff.mp (first.saysSame_offset i.offset)

namespace MethodBody

def fetch? (b : MethodBody) (id : InstrId) : Option Instruction :=
  (b.code.get? id).map Instruction.said

/-- Whether an instruction is inside the protected region of a handler. -/
def protects (b : MethodBody) (h : Handler) (id : InstrId) : Bool :=
  (id == h.tryStart || [h.tryStart, id].isSublist b.code.ids) &&
    match h.tryEnd with
    | some last => [id, last].isSublist b.code.ids
    | none => true

/-- The finally handlers on the way out from one instruction to another, the innermost
first. -/
def finallyBetween (b : MethodBody) (id target : InstrId) : List InstrId :=
  (b.handlers.filter fun h => h.flags == .finallyClause && b.protects h id &&
    !b.protects h target).map Handler.handlerStart

end MethodBody

namespace Execution

/-! ## Values and memory -/

/-- What a managed pointer points to. -/
inductive Location where
  /-- An argument of the call. -/
  | ofArgument (index : Nat)
  /-- A local variable of the call. -/
  | ofLocal (index : Nat)
  /-- A field of an object. -/
  | ofField (object : Nat) (name : String)
  deriving DecidableEq, Repr, Inhabited

/-- A value; `δ` are the values the machine does not look into. -/
inductive Value (δ : Type) where
  /-- The null reference. -/
  | null
  /-- A reference to an object. -/
  | object (id : Nat)
  /-- A string. -/
  | string (text : String)
  /-- A managed pointer. -/
  | pointer (location : Location)
  /-- Any other value. -/
  | datum (data : δ)
  deriving DecidableEq, Repr, Inhabited

/-- The objects, and everything else outside of the call. -/
structure Heap (δ ρ : Type) where
  /-- The fields of the objects by name. -/
  field? : Nat → String → Option (Value δ)
  /-- Whatever else there is. -/
  rest : ρ

/-- What the instructions of a call can read and write. -/
structure Memory (δ ρ : Type) where
  /-- The arguments. -/
  arguments : List (Value δ)
  /-- The local variables. -/
  locals : List (Value δ)
  /-- The heap. -/
  heap : Heap δ ρ

variable {δ ρ : Type}

def Heap.setField (h : Heap δ ρ) (object : Nat) (name : String) (v : Value δ) : Heap δ ρ :=
  { h with field? := fun o n => if o = object ∧ n = name then some v else h.field? o n }

namespace Memory

def read (m : Memory δ ρ) : Location → Option (Value δ)
  | .ofArgument n => m.arguments[n]?
  | .ofLocal n => m.locals[n]?
  | .ofField object name => m.heap.field? object name

def put (m : Memory δ ρ) (v : Value δ) : Location → Memory δ ρ
  | .ofArgument n => { m with arguments := m.arguments.set n v }
  | .ofLocal n => { m with locals := m.locals.set n v }
  | .ofField object name => { m with heap := m.heap.setField object name v }

def putEach (m : Memory δ ρ) : List Location → List (Value δ) → Memory δ ρ
  | l :: ls, v :: vs => (m.put v l).putEach ls vs
  | _, _ => m

end Memory

/-- The places of a call that some values point to. -/
def framePlaces (values : List (Value δ)) : List Location :=
  values.filterMap fun
    | .pointer (.ofArgument n) => some (.ofArgument n)
    | .pointer (.ofLocal n) => some (.ofLocal n)
    | _ => none

/-! ## What the machine does not run -/

/-- What an accessor does to the field whose name it is given. -/
inductive Access where
  /-- It takes the object and the name, and answers what the field holds. -/
  | read
  /-- It takes the object, the name and a value, which the field then holds. -/
  | write
  deriving DecidableEq, Repr, Inhabited

/-- How many values an accessor pops, and how many it then pushes. -/
def Access.effect : Access → Nat × Nat
  | .read => (2, 1)
  | .write => (3, 0)

/-- The operand of an instruction with the member it names. -/
inductive Meaning where
  /-- An operand that names no imported member. -/
  | operand (operand : Operand)
  /-- An imported member. -/
  | member (member : MemberRef)
  deriving DecidableEq, Repr, Inhabited

/-- What an operand means; a token that should name an imported member has to. -/
def meaning? (refs : ReferenceTable) : Operand → Option Meaning
  | .token t =>
    if t.isIn .memberRef || t.isIn .methodSpec then (refs.get t).toOption.map .member
    else some (.operand (.token t))
  | operand => some (.operand operand)

/-- Whether a method is static, returns nothing and takes one address and nothing else. -/
def TakesAddress (method : MethodRef) : Prop :=
  method.signature.hasThis = false ∧ method.returnType.isVoid = true ∧
    ∃ parameter, method.parameterTypes = [parameter] ∧ parameter.isByRef = true

/-- Everything around the call that runs. -/
structure World (δ ρ : Type) where
  /-- The methods that access fields by name. -/
  access? : MethodRef → Option Access
  /-- They have the signature for it. -/
  access_effect : ∀ method access, access? method = some access →
    (method.pops, if method.returnType.isVoid then 0 else 1) = access.effect
  /-- What a method that takes one address may make of the value there. -/
  updates : MethodRef → Heap δ ρ → Value δ → Value δ → Prop
  /-- What any other instruction may make of the values it pops, of what those of them
  that point into the call point to, and of the heap: the values it pushes, the new
  contents of the places, and the new heap. -/
  performs : OpCode → Meaning → List (Value δ) → List (Value δ) → Heap δ ρ →
    List (Value δ) → List (Value δ) → Heap δ ρ → Prop
  /-- Which of its targets an instruction may take for the values it pops. -/
  decides : OpCode → List (Value δ) → Option Nat → Prop
  /-- What a local of a type holds at the start. -/
  initial : TypeSig → Value δ

theorem TakesAddress.pops_eq {method : MethodRef} (h : TakesAddress method) :
    method.pops = 1 := by
  obtain ⟨hthis, -, parameter, hparameters, -⟩ := h
  have hlength := congrArg List.length hparameters
  unfold MethodRef.parameterTypes at hlength
  rw [TypeSig.instantiateAll_eq_map, List.length_map] at hlength
  unfold MethodRef.pops MethodSig.argumentCount
  rw [hlength, hthis]
  rfl

theorem TakesAddress.access?_eq_none {method : MethodRef} (h : TakesAddress method)
    (w : World δ ρ) : w.access? method = none := by
  cases haccess : w.access? method with
  | none => rfl
  | some access =>
    have heffect := congrArg Prod.fst (w.access_effect method access haccess)
    simp only [h.pops_eq] at heffect
    cases access <;> cases heffect

end Execution

/-! ## The places instructions name -/

namespace Instruction

open Execution (Location)

def loads? (i : Instruction) : Option Location :=
  match i.op, i.operand with
  | .ldarg, .argument index => some (.ofArgument index.toNat)
  | .ldloc, .local index => some (.ofLocal index.toNat)
  | _, _ => none

def stores? (i : Instruction) : Option Location :=
  match i.op, i.operand with
  | .starg, .argument index => some (.ofArgument index.toNat)
  | .stloc, .local index => some (.ofLocal index.toNat)
  | _, _ => none

/-- The place whose address the instruction loads. -/
def addresses? (i : Instruction) : Option Location :=
  match i.op, i.operand with
  | .ldarga, .argument index => some (.ofArgument index.toNat)
  | .ldloca, .local index => some (.ofLocal index.toNat)
  | _, _ => none

end Instruction

namespace OpCode

/-- Whether the opcode accesses a field of what is on the stack. -/
def accessesField (op : OpCode) : Bool := op == .ldfld || op == .stfld || op == .ldflda

/-- Whether the machine leaves the opcode to its world: it goes on to the next instruction
and does not name a place. Access to a named field of an object it does not leave to it. -/
def isForeign (op : OpCode) : Bool :=
  match op with
  | .ldstr | .dup | .ldarg | .starg | .ldarga | .ldloc | .stloc | .ldloca => false
  | _ => op.flow == .sequential || op.flow == .call

end OpCode

namespace Execution

variable {δ ρ : Type}

/-- What an instruction that goes on to the next one makes of the stack and the memory. -/
inductive Does (w : World δ ρ) (refs : ReferenceTable) (returnType : TypeSig) (i : Instruction) :
    List (Value δ) → Memory δ ρ → List (Value δ) → Memory δ ρ → Prop where
  | literal {text : String} {stack : List (Value δ)} {m : Memory δ ρ} : i.op = .ldstr →
      i.operand = .string text → Does w refs returnType i stack m (.string text :: stack) m
  | copy {v : Value δ} {stack : List (Value δ)} {m : Memory δ ρ} : i.op = .dup →
      Does w refs returnType i (v :: stack) m (v :: v :: stack) m
  | load {l : Location} {v : Value δ} {stack : List (Value δ)} {m : Memory δ ρ} :
      i.loads? = some l → m.read l = some v → Does w refs returnType i stack m (v :: stack) m
  | store {l : Location} {old v : Value δ} {stack : List (Value δ)} {m : Memory δ ρ} :
      i.stores? = some l → m.read l = some old →
      Does w refs returnType i (v :: stack) m stack (m.put v l)
  | address {l : Location} {old : Value δ} {stack : List (Value δ)} {m : Memory δ ρ} :
      i.addresses? = some l → m.read l = some old →
      Does w refs returnType i stack m (.pointer l :: stack) m
  | loadField {t : Token} {field : FieldRef} {o : Nat} {v : Value δ} {stack : List (Value δ)}
      {m : Memory δ ρ} : i.op = .ldfld → i.operand = .token t → refs.field t = .ok field →
      m.read (.ofField o field.name) = some v →
      Does w refs returnType i (.object o :: stack) m (v :: stack) m
  | storeField {t : Token} {field : FieldRef} {o : Nat} {old v : Value δ}
      {stack : List (Value δ)} {m : Memory δ ρ} : i.op = .stfld → i.operand = .token t →
      refs.field t = .ok field → m.read (.ofField o field.name) = some old →
      Does w refs returnType i (v :: .object o :: stack) m stack (m.put v (.ofField o field.name))
  | addressField {t : Token} {field : FieldRef} {o : Nat} {old : Value δ}
      {stack : List (Value δ)} {m : Memory δ ρ} : i.op = .ldflda → i.operand = .token t →
      refs.field t = .ok field → m.read (.ofField o field.name) = some old →
      Does w refs returnType i (.object o :: stack) m
        (.pointer (.ofField o field.name) :: stack) m
  | get {method : MethodRef} {o : Nat} {name : String} {v : Value δ} {stack : List (Value δ)}
      {m : Memory δ ρ} : i.op.isCall = true → i.calledMethod refs = .ok method →
      w.access? method = some .read → m.read (.ofField o name) = some v →
      Does w refs returnType i (.string name :: .object o :: stack) m (v :: stack) m
  | set {method : MethodRef} {o : Nat} {name : String} {old v : Value δ}
      {stack : List (Value δ)} {m : Memory δ ρ} : i.op.isCall = true →
      i.calledMethod refs = .ok method → w.access? method = some .write →
      m.read (.ofField o name) = some old →
      Does w refs returnType i (v :: .string name :: .object o :: stack) m stack
        (m.put v (.ofField o name))
  | update {method : MethodRef} {l : Location} {old v : Value δ} {stack : List (Value δ)}
      {m : Memory δ ρ} : i.op.isCall = true → i.calledMethod refs = .ok method →
      TakesAddress method → m.read l = some old → w.updates method m.heap old v →
      Does w refs returnType i (.pointer l :: stack) m stack (m.put v l)
  | perform {meaning : Meaning} {args contents results contents' stack : List (Value δ)}
      {m m' : Memory δ ρ} {heap : Heap δ ρ} : i.op.isForeign = true →
      (i.op.isCall = true → ∀ method, i.calledMethod refs = .ok method →
        w.access? method = none ∧ (TakesAddress method → ∀ l, args ≠ [.pointer l])) →
      (i.op.accessesField = true → ∀ field, meaning = .member (.field field) →
        ∀ o, args.getLast? ≠ some (.object o)) →
      i.stackEffect refs returnType = .ok (args.length, results.length) →
      meaning? refs i.operand = some meaning →
      (framePlaces args).map m.read = contents.map some →
      w.performs i.op meaning args contents m.heap results contents' heap →
      m' = { m.putEach (framePlaces args) contents' with heap } →
      (framePlaces args).map m'.read = contents'.map some →
      Does w refs returnType i (args ++ stack) m (results ++ stack) m'

/-- A field that only objects have: there is no access to it on anything else. -/
def World.OnObjects (w : World δ ρ) (field : FieldRef) : Prop :=
  ∀ op args contents heap results contents' heap', op.accessesField = true →
    ¬ w.performs op (.member (.field field)) args contents heap results contents' heap'

/-! ## Steps and runs -/

/-- Where a run is: the instruction that comes next, the stack and the memory, and where
the finally handlers on the way out lead to. -/
structure State (δ ρ : Type) where
  /-- The instruction that is run next. -/
  here : InstrId
  /-- The evaluation stack, the top first. -/
  stack : List (Value δ)
  /-- The memory. -/
  memory : Memory δ ρ
  /-- Where to go when a finally handler ends, the nearest first. -/
  resume : List InstrId

/-- One step of a run. -/
inductive Step (w : World δ ρ) (b : MethodBody) (refs : ReferenceTable) (returnType : TypeSig) :
    State δ ρ → State δ ρ → Prop where
  | next {id id' : InstrId} {i : Instruction} {stack stack' : List (Value δ)}
      {m m' : Memory δ ρ} {resume : List InstrId} : b.fetch? id = some i →
      Does w refs returnType i stack m stack' m' → b.code.next? id = some id' →
      Step w b refs returnType ⟨id, stack, m, resume⟩ ⟨id', stack', m', resume⟩
  | jump {id id' : InstrId} {i : Instruction} {args stack : List (Value δ)} {m : Memory δ ρ}
      {resume : List InstrId} {k : Nat} : b.fetch? id = some i →
      i.op.flow = .conditionalBranch ∨ i.op.flow = .switch →
      i.stackEffect refs returnType = .ok (args.length, 0) → w.decides i.op args (some k) →
      i.targets[k]? = some id' →
      Step w b refs returnType ⟨id, args ++ stack, m, resume⟩ ⟨id', stack, m, resume⟩
  | stay {id id' : InstrId} {i : Instruction} {args stack : List (Value δ)} {m : Memory δ ρ}
      {resume : List InstrId} : b.fetch? id = some i →
      i.op.flow = .conditionalBranch ∨ i.op.flow = .switch →
      i.stackEffect refs returnType = .ok (args.length, 0) → w.decides i.op args none →
      b.code.next? id = some id' →
      Step w b refs returnType ⟨id, args ++ stack, m, resume⟩ ⟨id', stack, m, resume⟩
  | branch {id id' : InstrId} {i : Instruction} {stack : List (Value δ)} {m : Memory δ ρ}
      {resume : List InstrId} : b.fetch? id = some i → i.op.flow = .unconditionalBranch →
      i.targets = [id'] →
      Step w b refs returnType ⟨id, stack, m, resume⟩ ⟨id', stack, m, resume⟩
  | leave {id id' target : InstrId} {i : Instruction} {stack : List (Value δ)} {m : Memory δ ρ}
      {resume rest : List InstrId} : b.fetch? id = some i → i.op.flow = .leave →
      i.targets = [target] → b.finallyBetween id target ++ [target] = id' :: rest →
      Step w b refs returnType ⟨id, stack, m, resume⟩ ⟨id', [], m, rest ++ resume⟩
  | endFinally {id id' : InstrId} {i : Instruction} {stack : List (Value δ)} {m : Memory δ ρ}
      {resume : List InstrId} : b.fetch? id = some i → i.op = .endfinally →
      Step w b refs returnType ⟨id, stack, m, id' :: resume⟩ ⟨id', [], m, resume⟩

/-- Any number of steps. -/
inductive Steps (w : World δ ρ) (b : MethodBody) (refs : ReferenceTable) (returnType : TypeSig) :
    State δ ρ → State δ ρ → Prop where
  | refl (s : State δ ρ) : Steps w b refs returnType s s
  | head {s s' s'' : State δ ρ} : Step w b refs returnType s s' →
      Steps w b refs returnType s' s'' → Steps w b refs returnType s s''

/-- Where a call of a body with some arguments starts. -/
def Starts (w : World δ ρ) (b : MethodBody) (arguments : List (Value δ)) (heap : Heap δ ρ)
    (s : State δ ρ) : Prop :=
  ∃ id, b.code.first? = some id ∧
    s = ⟨id, [], ⟨arguments, b.locals.toList.map w.initial, heap⟩, []⟩

/-- A run is at its end, with what it returns on top of the stack. -/
def Returns (b : MethodBody) (returnType : TypeSig) (s : State δ ρ) (returned : List (Value δ)) :
    Prop :=
  ∃ i below, b.fetch? s.here = some i ∧ i.op = .ret ∧ s.stack = returned ++ below ∧
    returned.length = if returnType.isVoid then 0 else 1

/-- A call of a body with some arguments can run to its end, return `returned` and leave
this memory. -/
def Runs (w : World δ ρ) (b : MethodBody) (refs : ReferenceTable) (returnType : TypeSig)
    (arguments : List (Value δ)) (heap : Heap δ ρ) (returned : List (Value δ))
    (final : Memory δ ρ) : Prop :=
  ∃ s s', Starts w b arguments heap s ∧ Steps w b refs returnType s s' ∧
    Returns b returnType s' returned ∧ s'.memory = final

end Execution

end CilWeave
