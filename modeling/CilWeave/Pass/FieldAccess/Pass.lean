import CilWeave.Module.Enumeration
import CilWeave.Pass.FieldAccess.Routing
import CilWeave.Pass.Sweep
import CilWeave.Run.Session

/-
The pass that routes field access, with its record.

Without a record the pass looks through every method of every type that is not an
interface, apart from the excluded methods, and records the methods it changed.
With a record it goes straight to the recorded methods; one that is not there,
or that cannot be patched any more, spoils the whole run.
-/

namespace CilWeave

namespace FieldAccess

def passName : String := "FieldAccess"

/-- The methods to look through, with the full names of their types. -/
def candidates (f : FieldAccess) (m : Module) : List (String × Token) :=
  (m.allTypes.filter fun t => !t.isInterface).flatMap fun t =>
    let typeName := m.typeFullName t
    ((t.methods.toList.filterMap m.methodDef?).filter fun method =>
      method.hasBody && !f.isExcluded typeName method).map fun method => (typeName, method.token)

/-- The record of the patched methods. A method that is a candidate more than once
goes by its last type. -/
def recordOf (owners : List (String × Token)) (m : Module) (fingerprint : String)
    (patched : List Token) : PatchRecord :=
  patched.foldl (fun record t =>
    match owners.findRev? (·.2 == t), m.methodDef? t with
    | some (typeName, _), some method => record.add typeName (m.methodFullName method)
    | _, _ => record) (.empty fingerprint)

/-- Looks through the whole module, and answers the record of what was patched. -/
def scan (f : FieldAccess) (routing : FieldRouting) (fingerprint : String) :
    Edit Module (Report × PatchRecord) := fun m =>
  let owners := f.candidates m
  match Module.sweep routing.rule (owners.map (·.2)) m with
  | .error e m => .error e m
  | .ok (report, patched) m => .ok (report, recordOf owners m fingerprint patched) m

/-- The token of the method of a type that has this full name; the last one counts. -/
def recordedMethod? (m : Module) (typeName methodName : String) : Option Token := do
  let t ← m.findType? typeName
  let methods := t.methods.toList.filterMap m.methodDef?
  let method ← methods.findRev? fun method => m.methodFullName method == methodName
  return method.token

/-- Patches one recorded method; it must have something to replace. -/
def replayMethod (routing : FieldRouting) (typeName methodName : String) :
    Edit Module (List Offer) := fun m =>
  match (recordedMethod? m typeName methodName).bind fun t => (m.methodDef? t).map (t, ·) with
  | none => .error (.cacheReplay typeName methodName) m
  | some (t, method) =>
    match m.editMethod t method [] routing.rule.rewrite with
    | .error _ m => .error (.cacheReplay typeName methodName) m
    | .ok offers m =>
      if 0 < Offer.replacedCount offers then .ok offers m
      else .error (.cacheReplay typeName methodName) m

/-- Patches recorded methods one after the other. -/
def replayAll (routing : FieldRouting) : List (String × String) → Report → Edit Module Report
  | [], report, m => .ok report m
  | (typeName, methodName) :: rest, report, m =>
    match replayMethod routing typeName methodName m with
    | .error e m => .error e m
    | .ok offers m =>
      replayAll routing rest
        (report.patched (Offer.replacedCount offers) (Offer.missedCount offers)) m

def replay (routing : FieldRouting) (record : PatchRecord) : Edit Module Report :=
  replayAll routing record.pairs { Report.nothing with fromRecord := true }

/-- Looks through the whole module and keeps the record where there is a place for it;
a record that cannot be written is lost. -/
def scanAndRecord (f : FieldAccess) (routing : FieldRouting)
    (location : Option (String × String)) : Edit Session Report := fun s =>
  match f.scan routing ((location.map (·.2)).getD "") s.module with
  | .error e module => .error e { s with module }
  | .ok (report, record) module =>
    match location with
    | none => .ok report { s with module }
    | some (path, _) => .ok report ⟨module, (record.save s.files path).1⟩

/-- Routes the access to the tracked fields of a module. -/
def run (f : FieldAccess) (env : Environment) : Edit Session Report := fun s =>
  match FieldRouting.ofModule f s.module env.helpers with
  | .error e => .error e s
  | .ok routing =>
    match env.recordLocation? s.files passName s.module.name with
    | none => f.scanAndRecord routing none s
    | some (path, fingerprint) =>
      match PatchRecord.load s.files path fingerprint with
      | .error e => .error e s
      | .ok (some record) => Session.onModule (replay routing record) s
      | .ok none => f.scanAndRecord routing (some (path, fingerprint)) s

end FieldAccess

end CilWeave
