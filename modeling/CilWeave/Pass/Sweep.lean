import CilWeave.Module.Names
import CilWeave.Rewrite.Editing
import CilWeave.Run.Report

/-
Running one rule over many methods of a module.

A defect of one method body leaves that method alone and is counted. Any other
error ends the pass; what was patched before stays patched.
-/

namespace CilWeave

namespace Module

/-- Runs a rule over the methods of some tokens. The report is continued, and the
patched methods are put in front of `patched`. -/
def sweepMethods (rule : RewriteRule Unit) :
    List Token → Report → (patched : List Token) → Edit Module (Report × List Token)
  | [], report, patched, m => .ok (report, patched) m
  | t :: rest, report, patched, m =>
    match m.methodDef? t with
    | none => sweepMethods rule rest report patched m
    | some method =>
      match m.editMethod t method [] rule.rewrite with
      | .ok offers m =>
        let report := { report with
          replaced := report.replaced + Offer.replacedCount offers
          missed := report.missed + Offer.missedCount offers }
        if 0 < Offer.replacedCount offers then
          sweepMethods rule rest { report with methodsPatched := report.methodsPatched + 1 }
            (t :: patched) m
        else sweepMethods rule rest report patched m
      | .error e m =>
        if e.isMethodScoped then sweepMethods rule rest report.failed patched m
        else .error e m

/-- Runs a rule over the methods of some tokens, and answers the report and the
patched methods in their order. -/
def sweep (rule : RewriteRule Unit) (methods : List Token) :
    Edit Module (Report × List Token) := fun m =>
  match sweepMethods rule methods .nothing [] m with
  | .ok (report, patched) m => .ok (report, patched.reverse) m
  | .error e m => .error e m

def describeMethod (m : Module) (t : Token) : String :=
  match m.methodDef? t with
  | some method => m.methodFullName method
  | none => t.text

end Module

/-- The method a token names, for a pass that cannot go on without it. -/
def Module.methodAt (t : Token) : Edit Module MethodDef := fun m =>
  match m.methodDef? t with
  | some method => .ok method m
  | none => .error (.dangling (.method t)) m

end CilWeave
