import CilWeave.Rewrite.Replacement
import CilWeave.Rewrite.Scratch

/-
Rewrite rules: which instructions to replace, and by what.

A rule sees the body but cannot change its code. All it may do while it builds a
replacement is to ask for scratch locals, to import references, and to change
what it remembers itself.
-/

namespace CilWeave

/-- What a rule may add to while it builds a replacement, and what it remembers. -/
structure Supplies (σ : Type) where
  /-- The types of the local variables of the body. -/
  locals : Array TypeSig
  /-- The scratch locals among them. -/
  scratch : ScratchLocals
  /-- The references of the module. -/
  references : ReferenceTable
  /-- What the rule remembers from one site to the next. -/
  memory : σ

namespace Supplies

def scratchLocal {σ : Type} (type : TypeSig) : Edit (Supplies σ) UInt16 :=
  .within (fun s => (s.scratch, s.locals))
    (fun s (scratch, locals) => { s with scratch, locals }) (ScratchLocals.request type)

/-- The token of a member in the module's references. -/
def importMember {σ : Type} (member : MemberRef) : Edit (Supplies σ) Token := fun s =>
  let (token, references) := s.references.intern member
  .ok token { s with references }

end Supplies

/-- A pattern and its replacement. -/
structure RewriteRule (σ : Type) where
  /-- Whether an instruction is a candidate. -/
  applies : σ → ReferenceTable → Instruction → Bool
  /-- The replacement for a candidate of the body, or nothing if the rule declines. -/
  build : MethodBody → InstrId → Edit (Supplies σ) (Option Replacement)

def MethodBody.instruction (b : MethodBody) (id : InstrId) : Except Error Instruction :=
  match b.code.get? id with
  | some i => .ok i
  | none => .error (.dangling (.lookup id))

end CilWeave
