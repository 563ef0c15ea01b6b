/-
What a pass did to a module, in numbers.
-/

namespace CilWeave

/-- The numbers of one pass over one module. -/
structure Report where
  /-- Methods whose body was changed. -/
  methodsPatched : Nat
  /-- Instructions replaced. -/
  replaced : Nat
  /-- Instructions that matched and were left, because their surroundings do not fit. -/
  missed : Nat
  /-- Methods left as they are because of a defect. -/
  failedMethods : Nat
  /-- Whether the pass followed a record instead of looking through the module. -/
  fromRecord : Bool
  /-- The time the pass took, in milliseconds. -/
  elapsed : Nat
  deriving DecidableEq, Repr, Inhabited

namespace Report

/-- The report of a pass that found nothing to do. -/
def nothing : Report := ⟨0, 0, 0, 0, false, 0⟩

/-- Whether the pass changed the module. -/
def isChange (r : Report) : Bool := 0 < r.methodsPatched

/-- Two reports in one. -/
def add (r s : Report) : Report :=
  ⟨r.methodsPatched + s.methodsPatched, r.replaced + s.replaced, r.missed + s.missed,
    r.failedMethods + s.failedMethods, r.fromRecord || s.fromRecord, r.elapsed + s.elapsed⟩

instance : Add Report := ⟨add⟩

/-- One more method patched, with this many instructions replaced and missed. -/
def patched (r : Report) (replaced missed : Nat) : Report :=
  { r with
    methodsPatched := r.methodsPatched + 1
    replaced := r.replaced + replaced
    missed := r.missed + missed }

/-- One more method left because of a defect. -/
def failed (r : Report) : Report := { r with failedMethods := r.failedMethods + 1 }

end Report

end CilWeave
