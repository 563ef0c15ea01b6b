import CilWeave.Pass.CallRedirection
import CilWeave.Proofs.Encoding.Canonical
import CilWeave.Proofs.Rewrite.Faults

/-
What a redirection makes of one instruction.

A call of the target either fits the replacement and is redirected, or it is a miss
(`Redirecting.applies_iff`). The call it becomes pops and pushes what it did, moves control the
same way and takes the same room (`Redirecting.stackEffect_redirected`,
`Redirecting.room_redirected`); and where the replacement is a target itself, it fits itself,
so there are the same misses afterwards (`Redirecting.misses_redirected`).
-/

namespace CilWeave

/-- A redirection whose replacement is imported. -/
structure Redirecting where
  /-- Which calls are redirected. -/
  pass : CallRedirection
  /-- The references of the module, with the replacement. -/
  refs : ReferenceTable
  /-- The token of the replacement. -/
  token : Token
  /-- The replacement. -/
  replacement : MethodRef
  /-- The token names the replacement. -/
  named : refs.method token = .ok replacement

def Instruction.callee? (i : Instruction) (refs : ReferenceTable) : Option MethodRef :=
  if i.op.isCall then i.token?.bind fun t => (refs.method t).toOption else none

namespace Redirecting

variable (q : Redirecting)

def rule : RewriteRule Unit := q.pass.rule q.token q.replacement

/-- Whether an instruction is a call that can be redirected. -/
def redirects (i : Instruction) : Bool :=
  (i.callee? q.refs).any fun method =>
    q.pass.targets method && CallRedirection.fits method q.replacement

/-- Whether an instruction is a call of the target that cannot be redirected. -/
def misses (i : Instruction) : Bool :=
  (i.callee? q.refs).any fun method =>
    q.pass.targets method && !CallRedirection.fits method q.replacement

def redirected (i : Instruction) : Instruction :=
  if q.redirects i then i.recode .call (.token q.token) else i

variable {q} {i i' : Instruction}

/-! ## One instruction -/

theorem isCall_iff {op : OpCode} : (op == .call || op == .callvirt) = op.isCall := by
  cases op <;> rfl

theorem applies_eq (q : Redirecting) (i : Instruction) :
    q.pass.applies q.refs i = (i.callee? q.refs).any q.pass.targets := by
  simp only [CallRedirection.applies, Instruction.callee?, isCall_iff]
  cases i.op.isCall with
  | false => rfl
  | true =>
    cases i.token? with
    | none => rfl
    | some t =>
      simp only [Bool.true_and, if_true, Option.bind_some]
      cases q.refs.method t <;> rfl

theorem applies_iff :
    q.pass.applies q.refs i = true ↔ q.redirects i = true ∨ q.misses i = true := by
  rw [applies_eq]
  simp only [redirects, misses]
  cases i.callee? q.refs with
  | none => simp
  | some method =>
    simp only [Option.any_some, Bool.and_eq_true, Bool.not_eq_true']
    cases CallRedirection.fits method q.replacement <;> simp

theorem not_misses_of_redirects (h : q.redirects i = true) : q.misses i = false := by
  simp only [redirects, misses] at h ⊢
  cases hc : i.callee? q.refs with
  | none => rfl
  | some method =>
    rw [hc] at h
    simp only [Option.any_some, Bool.and_eq_true] at h ⊢
    rw [h.2, Bool.not_true, Bool.and_false]

theorem callee?_eq_some {refs : ReferenceTable} {method : MethodRef} :
    i.callee? refs = some method ↔
      i.op.isCall = true ∧ ∃ t, i.operand = .token t ∧ refs.method t = .ok method := by
  simp only [Instruction.callee?]
  constructor
  · intro h
    split at h
    · rename_i hcall
      obtain ⟨t, ht, hmethod⟩ := Option.bind_eq_some_iff.mp h
      refine ⟨hcall, t, Instruction.token?_eq_some.mp ht, ?_⟩
      cases hm : refs.method t with
      | error e => rw [hm] at hmethod; cases hmethod
      | ok found => rw [hm] at hmethod; cases hmethod; rfl
    · cases h
  · rintro ⟨hcall, t, ht, hmethod⟩
    rw [if_pos hcall, Instruction.token?_eq_some.mpr ht, Option.bind_some, hmethod]
    rfl

theorem redirects_iff : q.redirects i = true ↔ ∃ method, i.callee? q.refs = some method ∧
    q.pass.targets method = true ∧ CallRedirection.fits method q.replacement = true := by
  simp only [redirects, Option.any_eq_true, Bool.and_eq_true]

theorem fits_iff {method other : MethodRef} : CallRedirection.fits method other = true ↔
    method.pops = other.pops ∧ method.returnType.isVoid = other.returnType.isVoid := by
  simp only [CallRedirection.fits, Bool.and_eq_true, beq_iff_eq]

theorem redirected_of (h : q.redirects i = true) :
    q.redirected i = i.recode .call (.token q.token) := if_pos h

theorem redirected_of_not (h : q.redirects i = false) : q.redirected i = i := by
  simp only [redirected, h, Bool.false_eq_true, if_false]

theorem of_redirects (h : q.redirects i = true) :
    i.op.isCall = true ∧ ∃ t method, i.operand = .token t ∧ q.refs.method t = .ok method ∧
      q.pass.targets method = true ∧ CallRedirection.fits method q.replacement = true := by
  obtain ⟨method, hcallee, htargets, hfits⟩ := redirects_iff.mp h
  obtain ⟨hcall, t, ht, hmethod⟩ := callee?_eq_some.mp hcallee
  exact ⟨hcall, t, method, ht, hmethod, htargets, hfits⟩

theorem callee?_congr (hop : i'.op = i.op) (hoperand : i'.operand = i.operand)
    (refs : ReferenceTable) : i'.callee? refs = i.callee? refs := by
  simp only [Instruction.callee?, Instruction.token?, hop, hoperand]

theorem redirects_congr (hop : i'.op = i.op) (hoperand : i'.operand = i.operand) :
    q.redirects i' = q.redirects i := by
  simp only [redirects, callee?_congr hop hoperand]

theorem misses_congr (hop : i'.op = i.op) (hoperand : i'.operand = i.operand) :
    q.misses i' = q.misses i := by
  simp only [misses, callee?_congr hop hoperand]

theorem callee?_redirected (h : q.redirects i = true) :
    (q.redirected i).callee? q.refs = some q.replacement := by
  rw [redirected_of h]
  exact callee?_eq_some.mpr ⟨rfl, q.token, rfl, q.named⟩

theorem redirects_redirected :
    q.redirects (q.redirected i) = true ↔ q.redirects i = true ∧
      q.pass.targets q.replacement = true := by
  cases h : q.redirects i with
  | false => rw [redirected_of_not h, h]; simp
  | true =>
    simp only [redirects, callee?_redirected h, Option.any_some, Bool.and_eq_true, true_and]
    exact and_iff_left (fits_iff.mpr ⟨rfl, rfl⟩)

/-- A redirection makes no miss and unmakes none. -/
theorem misses_redirected (i : Instruction) : q.misses (q.redirected i) = q.misses i := by
  cases h : q.redirects i with
  | false => rw [redirected_of_not h]
  | true =>
    have hfits : CallRedirection.fits q.replacement q.replacement = true :=
      fits_iff.mpr ⟨rfl, rfl⟩
    rw [not_misses_of_redirects h]
    simp only [misses, callee?_redirected h, Option.any_some, hfits, Bool.not_true, Bool.and_false]

theorem fits_redirected (hi : i.operand.fits i.op.operandKind = true) :
    (q.redirected i).operand.fits (q.redirected i).op.operandKind = true := by
  cases h : q.redirects i with
  | false => rw [redirected_of_not h]; exact hi
  | true => rw [redirected_of h]; rfl

theorem expanded_of_isCall (h : i.op.isCall = true) : i.expanded = i := by
  refine Instruction.expanded_of_none ?_
  rcases OpCode.of_isCall h with hop | hop <;> simp only [Instruction.expandedForm?, hop] <;> rfl

theorem compacted_of_isCall (h : i.op.isCall = true) : i.compacted = i := by
  simp only [Instruction.compacted, Instruction.compactedForm?]
  rcases OpCode.of_isCall h with hop | hop <;> simp only [hop]

theorem expanded_redirected (hi : i.expanded = i) :
    (q.redirected i).expanded = q.redirected i := by
  cases h : q.redirects i with
  | false => rw [redirected_of_not h, hi]
  | true => rw [redirected_of h]; exact expanded_of_isCall rfl

theorem targets_redirected (i : Instruction) : (q.redirected i).targets = i.targets := by
  cases h : q.redirects i with
  | false => rw [redirected_of_not h]
  | true =>
    obtain ⟨-, t, -, ht, -⟩ := of_redirects h
    rw [redirected_of h]
    simp only [Instruction.targets, Instruction.recode, ht, Operand.targets]

theorem local_of_redirected {index : UInt16} (hop : (q.redirected i).operand = .local index) :
    i.operand = .local index := by
  cases h : q.redirects i with
  | false => rwa [redirected_of_not h] at hop
  | true => rw [redirected_of h] at hop; cases hop

theorem flow_redirected (i : Instruction) : (q.redirected i).op.flow = i.op.flow := by
  cases h : q.redirects i with
  | false => rw [redirected_of_not h]
  | true =>
    rw [redirected_of h]
    rcases OpCode.of_isCall (of_redirects h).1 with hop | hop <;> rw [hop] <;> rfl

/-- A redirected call pops and pushes what the call did. -/
theorem stackEffect_redirected (i : Instruction) (returnType : TypeSig) :
    (q.redirected i).stackEffect q.refs returnType = i.stackEffect q.refs returnType := by
  cases h : q.redirects i with
  | false => rw [redirected_of_not h]
  | true =>
    obtain ⟨hcall, t, method, ht, hmethod, -, hfits⟩ := of_redirects h
    obtain ⟨hpops, hvoid⟩ := fits_iff.mp hfits
    have hcalled : i.calledMethod q.refs = .ok method :=
      Instruction.calledMethod_of_method ht hmethod
    have hcalled' : (i.recode .call (.token q.token)).calledMethod q.refs = .ok q.replacement :=
      Instruction.calledMethod_of_method rfl q.named
    have hstack : i.op.info.stack = .call := by
      rcases OpCode.of_isCall hcall with hop | hop <;> rw [hop] <;> rfl
    have hstack' : (i.recode .call (.token q.token)).op.info.stack = .call := rfl
    rw [redirected_of h]
    simp only [Instruction.stackEffect, hstack, hstack', hcalled, hcalled', Except.map, hpops,
      hvoid]

/-- A redirected call takes the room that the call took. -/
theorem room_redirected (i : Instruction) :
    (q.redirected i).expanded.compacted.size = i.expanded.compacted.size := by
  cases h : q.redirects i with
  | false => rw [redirected_of_not h]
  | true =>
    have hcall := (of_redirects h).1
    rw [redirected_of h, expanded_of_isCall hcall, compacted_of_isCall hcall,
      expanded_of_isCall rfl, compacted_of_isCall rfl]
    simp only [Instruction.size, Instruction.recode]
    rcases OpCode.of_isCall hcall with hop | hop <;> rw [hop] <;> rfl

end Redirecting

end CilWeave
