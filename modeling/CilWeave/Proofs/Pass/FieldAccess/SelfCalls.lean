import CilWeave.Proofs.Pass.AccessorForwarding
import CilWeave.Proofs.Pass.CallRedirection.Redirecting
import CilWeave.Proofs.Pass.FieldAccess.Completeness
import CilWeave.Proofs.Pass.FieldAccess.Routes

/-
Which calls a pass over the fields adds.

Where an access to a tracked field is replaced, its accessors are called, and nothing else is. So
the calls of a method in a body, and the calls of it that are due for accesses to fields, are as
many together as they were (`FieldRouting.conserves_of_rewriting`), and that stays so however
often a body is rewritten, in a scan or in a replay (`FieldAccess.conservesCalls_run`).

An accessor is a method like any other here: which methods keep direct access is decided by their
own names, and not by whether they are called in the place of access. So an accessor comes to call
itself exactly if it had access to a field that it is the accessor of
(`FieldAccess.run_conserves_calls`). A forwarder has no access to fields
(`AccessorForwarding.IsForwarder.due_eq`), but not every accessor is forwarded
(`FieldAccess.not_spares_accessors`).
-/

namespace CilWeave

open RewriteRule (Rewriting)

/-! ## Calls that are there and calls that are due -/

/-- How many calls of a method an instruction is. -/
def Instruction.callsTo (refs : ReferenceTable) (callee : MethodRef) (i : Instruction) : Nat :=
  if i.callee? refs = some callee then 1 else 0

def MethodBody.callsTo (b : MethodBody) (refs : ReferenceTable) (callee : MethodRef) : Nat :=
  b.weight (Instruction.callsTo refs callee)

namespace FieldRouting

/-- The methods that are called in the place of an access to a field. -/
def accessorsFor (r : FieldRouting) (op : OpCode) (field : FieldRef) : List MethodRef :=
  match op with
  | .ldfld => [(r.accessors.getter field.fieldType).2]
  | .stfld => [(r.accessors.setter field.fieldType).2]
  | .ldflda => [(r.accessors.getter field.fieldType).2, (r.accessors.setter field.fieldType).2]
  | _ => []

/-- How many calls of a method are due for an instruction: as many as there would be in its place.
-/
def dueFor (r : FieldRouting) (refs : ReferenceTable) (callee : MethodRef) (i : Instruction) :
    Nat :=
  match i.token?.map refs.field with
  | some (.ok field) => if r.tracks field then (r.accessorsFor i.op field).count callee else 0
  | _ => 0

/-- How many calls of a method are due in a body. -/
def due (r : FieldRouting) (refs : ReferenceTable) (callee : MethodRef) (b : MethodBody) : Nat :=
  b.weight (r.dueFor refs callee)

/-- Calls of a method are only added where they were due. -/
structure Conserves (r : FieldRouting) (refs : ReferenceTable) (callee : MethodRef)
    (b b' : MethodBody) : Prop where
  total : b'.callsTo refs callee + r.due refs callee b' =
    b.callsTo refs callee + r.due refs callee b
  due : r.due refs callee b' ≤ r.due refs callee b

variable {r : FieldRouting} {refs last : ReferenceTable} {callee : MethodRef}
  {i i' : Instruction} {b b' b₁ : MethodBody}

namespace Conserves

theorem refl (b : MethodBody) : r.Conserves refs callee b b := ⟨rfl, Nat.le_refl _⟩

theorem trans (h : r.Conserves refs callee b b₁) (h' : r.Conserves refs callee b₁ b') :
    r.Conserves refs callee b b' :=
  ⟨h'.total.trans h.total, Nat.le_trans h'.due h.due⟩

theorem calls_lt_iff (h : r.Conserves refs callee b b') :
    b.callsTo refs callee < b'.callsTo refs callee ↔
      r.due refs callee b' < r.due refs callee b := by
  have htotal := h.total
  omega

end Conserves

/-! ## One instruction -/

theorem callsTo_eq_zero (h : i.op.isCall = false) : i.callsTo refs callee = 0 := by
  have hnone : i.callee? refs = none := by
    rw [Instruction.callee?, h]
    rfl
  rw [Instruction.callsTo, hnone]
  rfl

theorem accessorsFor_eq_nil {op : OpCode} (h : isAccess op = false) (field : FieldRef) :
    r.accessorsFor op field = [] := by
  unfold accessorsFor
  split
  · cases h
  · cases h
  · cases h
  · rfl

theorem dueFor_eq_zero (h : isAccess i.op = false) : r.dueFor refs callee i = 0 := by
  unfold dueFor
  split
  · rw [accessorsFor_eq_nil h, List.count_nil, ite_self]
  · rfl

theorem dueFor_eq {t : Token} {field : FieldRef} (ht : i.operand = .token t)
    (hfield : refs.field t = .ok field) (htracks : r.tracks field = true) :
    r.dueFor refs callee i = (r.accessorsFor i.op field).count callee := by
  unfold dueFor
  rw [Instruction.token?_eq_some.mpr ht, Option.map_some, hfield]
  simp only [htracks, if_true]

theorem dueFor_pos_iff : 0 < r.dueFor refs callee i ↔ ∃ t field, i.operand = .token t ∧
    refs.field t = .ok field ∧ r.tracks field = true ∧ callee ∈ r.accessorsFor i.op field := by
  constructor
  · intro h
    unfold dueFor at h
    split at h
    · rename_i field hfield
      obtain ⟨t, ht, hfield⟩ := Option.map_eq_some_iff.mp hfield
      split at h
      · rename_i htracks
        exact ⟨t, field, Instruction.token?_eq_some.mp ht, hfield, htracks,
          List.count_pos_iff.mp h⟩
      · cases h
    · cases h
  · rintro ⟨t, field, ht, hfield, htracks, hmem⟩
    rw [dueFor_eq ht hfield htracks]
    exact List.count_pos_iff.mpr hmem

theorem due_pos_iff : 0 < r.due refs callee b ↔ ∃ i ∈ b.code.instructions, ∃ t field,
    i.operand = .token t ∧ refs.field t = .ok field ∧ r.tracks field = true ∧
      callee ∈ r.accessorsFor i.op field := by
  rw [due, MethodBody.weight, List.sum_pos_iff_exists_pos_nat]
  simp only [List.mem_map, exists_exists_and_eq_and, dueFor_pos_iff]

def calledOrDue (r : FieldRouting) (refs : ReferenceTable) (callee : MethodRef) (i : Instruction) :
    Nat :=
  i.callsTo refs callee + r.dueFor refs callee i

theorem weight_calledOrDue (b : MethodBody) : b.weight (r.calledOrDue refs callee) =
    b.callsTo refs callee + r.due refs callee b := List.sum_map_add

theorem calledOrDue_eq_zero (hcall : i.op.isCall = false) (haccess : isAccess i.op = false) :
    r.calledOrDue refs callee i = 0 := by
  rw [calledOrDue, callsTo_eq_zero hcall, dueFor_eq_zero haccess]

theorem eq_of_saysSame {α : Type} {f : Instruction → α} {none : α}
    (hmember : ∀ {i i' : Instruction}, i'.op = i.op → i'.operand = i.operand → f i' = f i)
    (hnone : ∀ {i : Instruction}, i.op.namesMember = false → f i = none)
    (h : i'.SaysSame i) : f i' = f i := by
  cases hi : i.op.namesMember with
  | true => exact hmember (h.op_eq hi).1 (h.op_eq hi).2
  | false =>
    cases hi' : i'.op.namesMember with
    | true => exact (hmember (h.symm.op_eq hi').1 (h.symm.op_eq hi').2).symm
    | false => rw [hnone hi, hnone hi']

theorem isCall_eq_false {op : OpCode} (h : op.namesMember = false) : op.isCall = false := by
  refine Bool.eq_false_iff.mpr fun hcall => ?_
  rcases OpCode.of_isCall hcall with rfl | rfl <;> cases h

theorem isAccess_eq_false {op : OpCode} (h : op.namesMember = false) : isAccess op = false := by
  refine Bool.eq_false_iff.mpr fun haccess => ?_
  rw [namesMember_of_isAccess haccess] at h
  cases h

theorem isCall_eq_false_of_access {op : OpCode} (h : isAccess op = true) : op.isCall = false := by
  refine Bool.eq_false_iff.mpr fun hcall => ?_
  rcases OpCode.of_isCall hcall with rfl | rfl <;> cases h

theorem dueFor_saysSame (h : i'.SaysSame i) : r.dueFor refs callee i' = r.dueFor refs callee i :=
  eq_of_saysSame (fun hop hoperand => by simp only [dueFor, Instruction.token?, hop, hoperand])
    (fun hnot => dueFor_eq_zero (isAccess_eq_false hnot)) h

theorem calledOrDue_saysSame (h : i'.SaysSame i) :
    r.calledOrDue refs callee i' = r.calledOrDue refs callee i :=
  eq_of_saysSame
    (fun hop hoperand => by
      simp only [calledOrDue, Instruction.callsTo, Redirecting.callee?_congr hop hoperand, dueFor,
        Instruction.token?, hop, hoperand])
    (fun hnot => calledOrDue_eq_zero (isCall_eq_false hnot) (isAccess_eq_false hnot)) h

/-! ## What is put in -/

theorem callee?_of_calledMethod (hcall : i.op.isCall = true)
    (h : i.calledMethod refs = .ok callee) : i.callee? refs = some callee := by
  unfold Instruction.calledMethod at h
  split at h
  · rename_i method hmethod
    cases h
    obtain ⟨t, ht, hmethod⟩ := Option.map_eq_some_iff.mp hmethod
    exact Redirecting.callee?_eq_some.mpr
      ⟨hcall, t, Instruction.token?_eq_some.mp ht, hmethod⟩
  · cases h

theorem calledOrDue_callOf {accessor : OpCode × MethodRef} {s s' : Supplies Unit}
    (h : callOf accessor s = .ok i s') (hcall : accessor.1.isCall = true)
    (hgrows : s'.references.GrowsTo refs) (hfits : refs.FitsTokens) :
    r.calledOrDue refs callee i = [accessor.2].count callee := by
  obtain ⟨hop, -, hcalled⟩ := callOf_eq_ok h
  have haccess : isAccess i.op = false := (IsPlain.isAccess_eq (.inr (hop ▸ hcall)))
  have hcallee := callee?_of_calledMethod (hop ▸ hcall) (hcalled refs hgrows hfits)
  rw [calledOrDue, dueFor_eq_zero haccess, Instruction.callsTo, hcallee, List.count_singleton,
    Nat.add_zero]
  simp only [Option.some.injEq, beq_iff_eq]

section Rewritten

variable {d d' swept : Draft Unit} {offers : List Offer} {expanded : MethodBody}
  {visits : List (Visit Unit)} {v : Visit Unit}

/-- What an instruction is replaced by calls what was due, whatever references come later. -/
theorem Built.weight_eq {t : Token} {field : FieldRef} {s : Supplies Unit}
    {replacement : Replacement} (h : Built r d d' v t field s replacement)
    (ho : v.outcome = .replaced replacement) (hgrows : d'.references.GrowsTo last)
    (hfits : last.FitsTokens) :
    v.toStitch.weight (r.calledOrDue last callee) = r.calledOrDue last callee v.instruction := by
  have hgetter := Accessors.isCall_choose r.accessors.getters r.accessors.genericGetter
    field.fieldType
  have hsetter := Accessors.isCall_choose r.accessors.setters r.accessors.genericSetter
    field.fieldType
  have hdue : isAccess v.instruction.op = true → r.calledOrDue last callee v.instruction =
      (r.accessorsFor v.instruction.op field).count callee := by
    intro haccess
    rw [calledOrDue, callsTo_eq_zero (isCall_eq_false_of_access haccess), Nat.zero_add,
      dueFor_eq h.named ((h.before.trans hgrows).field_eq_ok h.resolved) h.tracks]
  -- Of what is put in, only the calls of accessors count.
  have hplain : ∀ {j : Instruction}, j.op.isCall = false → isAccess j.op = false →
      r.calledOrDue last callee j = 0 := calledOrDue_eq_zero
  have hname : r.calledOrDue last callee (.ldstr field.name) = 0 := hplain rfl rfl
  have hlater := h.after.trans hgrows
  cases h.builds with
  | @load get hop hcall =>
    obtain ⟨hhead, hrest, htrailer⟩ := Stitch.of_replaced ho
    have hfirst : r.calledOrDue last callee v.head = 0 := hhead ▸ hplain rfl rfl
    simp only [Stitch.weight, hfirst, hrest, htrailer, List.map_cons, List.map_nil, List.sum_cons,
      List.sum_nil, calledOrDue_callOf hcall hgetter hlater hfits, Nat.add_zero, Nat.zero_add]
    rw [hdue (by rw [hop]; rfl), hop]
    rfl
  | @store value set s₁ hop hvalue hcall =>
    obtain ⟨hhead, hrest, htrailer⟩ := Stitch.of_replaced ho
    have hfirst : r.calledOrDue last callee v.head = 0 := hhead ▸ hplain rfl rfl
    have hload : r.calledOrDue last callee (.ldloc value) = 0 := hplain rfl rfl
    simp only [Stitch.weight, hfirst, hrest, htrailer, List.map_cons, List.map_nil, List.sum_cons,
      List.sum_nil, hname, hload, calledOrDue_callOf hcall hsetter hlater hfits, Nat.add_zero,
      Nat.zero_add]
    rw [hdue (by rw [hop]; rfl), hop]
    rfl
  | @address value get set s₁ s₂ hop hhands hvalue hcall hcall' =>
    have hbetween := ((extends_callOf _).of_ok hcall').references.trans hlater
    obtain ⟨hhead, hrest, htrailer⟩ := Stitch.of_replaced ho
    have hfirst : r.calledOrDue last callee v.head = 0 := hhead ▸ hplain rfl rfl
    have hload : r.calledOrDue last callee (.ldloc value) = 0 := hplain rfl rfl
    have hstore : r.calledOrDue last callee (.stloc value) = 0 := hplain rfl rfl
    have haddress : r.calledOrDue last callee (.ldloca value) = 0 := hplain rfl rfl
    simp only [Stitch.weight, hfirst, hrest, htrailer, List.map_cons, List.map_nil, List.sum_cons,
      List.sum_nil, hname, hload, hstore, haddress,
      calledOrDue_callOf hcall hgetter hbetween hfits,
      calledOrDue_callOf hcall' hsetter hlater hfits, Nat.add_zero, Nat.zero_add]
    rw [hdue (by rw [hop]; rfl), hop]
    exact List.count_append.symm

variable (h : Rewriting r.rule d d' offers expanded visits swept)

include h

theorem trailer_of_last : ∀ v ∈ visits.head?, v.trailer = [] := by
  intro v hv
  by_contra htrailer
  obtain ⟨rest, rfl⟩ := List.head?_eq_some_iff.mp hv
  -- A trailer stands behind the call that is handed an address, and this comes later.
  have hhands := handsOn_of_trailer h List.mem_cons_self htrailer
  have hsplit : (v :: rest).reverse = rest.reverse ++ v :: [] := List.reverse_cons
  obtain ⟨_, _, _, _, hpost, -⟩ := of_handsOn_at h hsplit hhands
  cases hpost

/-- A rewrite adds calls where they were due. -/
theorem conserves_of_rewriting (hgrows : d'.references.GrowsTo last) (hfits : last.FitsTokens)
    (callee : MethodRef) : r.Conserves last callee d.body d'.body := by
  have hlast := trailer_of_last h
  constructor
  · rw [← weight_calledOrDue, ← weight_calledOrDue]
    refine h.weight_result_eq (fun _ _ => calledOrDue_saysSame) hlast fun v hv => ?_
    rcases v.toStitch.kept_or_replaced with hkept | ⟨replacement, ho⟩
    · exact hkept.weight_eq
    · obtain ⟨t, field, s, hbuilt⟩ := built h hv ho
      exact hbuilt.weight_eq ho hgrows hfits
  · refine h.weight_result_le (fun _ _ => dueFor_saysSame) hlast fun v hv => ?_
    have hkept : (∀ replacement, v.outcome ≠ .replaced replacement) →
        v.toStitch.weight (r.dueFor last callee) ≤ r.dueFor last callee v.instruction :=
      fun hnot => Nat.le_of_eq (Stitch.IsKept.weight_eq hnot)
    rcases visit_cases h hv with ⟨ho, -⟩ | ⟨ho, -⟩ | ⟨-, -, hhead, hnew⟩
    · exact hkept fun _ => by rw [ho]; nofun
    · exact hkept fun _ => by rw [ho]; nofun
    · rw [Stitch.weight_eq_zero (dueFor_eq_zero hhead.isAccess_eq)
        fun i hi => dueFor_eq_zero (hnew i hi).isAccess_eq]
      exact Nat.zero_le _

end Rewritten

/-! ## Modules -/

open CilWeave.Module (Turn)

variable {m m' m₁ : Module} {t : Token}

/-- References are only added, and so are calls to the bodies of methods, where they were due. -/
structure ConservesCalls (r : FieldRouting) (m m' : Module) : Prop where
  references : m.references.GrowsTo m'.references
  bodies : ∀ t method b, m.methodDef? t = some method → method.body = some b →
    ∃ b', m'.methodDef? t = some { method with body := some b' } ∧
      ∀ later callee, m'.references.GrowsTo later → later.FitsTokens →
        r.Conserves later callee b b'

namespace ConservesCalls

theorem refl (r : FieldRouting) (m : Module) : r.ConservesCalls m m := by
  refine ⟨.refl m.references, fun t method b ht hbody => ⟨b, ?_, fun _ _ _ _ => .refl b⟩⟩
  rw [ht, ← hbody]

theorem trans (h : r.ConservesCalls m m₁) (h' : r.ConservesCalls m₁ m') :
    r.ConservesCalls m m' := by
  refine ⟨h.references.trans h'.references, fun t method b ht hbody => ?_⟩
  obtain ⟨b₁, ht₁, hconserves⟩ := h.bodies t method b ht hbody
  obtain ⟨b', ht', hconserves'⟩ := h'.bodies t _ b₁ ht₁ rfl
  exact ⟨b', ht', fun later callee hgrows hfits =>
    (hconserves later callee (h'.references.trans hgrows) hfits).trans
      (hconserves' later callee hgrows hfits)⟩

theorem of_turn {result : Option (List Offer)}
    (hturn : Turn ReferenceTable.GrowsTo r.rule m m₁ t result)
    (hother : ∀ t', t' ≠ t → m₁.methodDef? t' = m.methodDef? t')
    (hrefs : m.references.GrowsTo m₁.references) : r.ConservesCalls m m₁ := by
  refine ⟨hrefs, fun t' method b ht' hbody => ?_⟩
  have hkept : m₁.methodDef? t' = m.methodDef? t' →
      ∃ b', m₁.methodDef? t' = some { method with body := some b' } ∧
        ∀ later callee, m₁.references.GrowsTo later → later.FitsTokens →
          r.Conserves later callee b b' := by
    intro hsame
    refine ⟨b, ?_, fun _ _ _ _ => .refl b⟩
    rw [hsame, ht', ← hbody]
  by_cases hne : t' = t
  · subst hne
    cases hturn with
    | absent ht => cases ht.symm.trans ht'
    | bodiless ht hnone =>
      cases ht.symm.trans ht'
      cases hnone.symm.trans hbody
    | failed ht _ _ _ _ hafter => exact hkept (hafter.trans ht.symm)
    | @edited _ _ refs offers d ht hold _ hrewrite hlater hafter =>
      cases ht.symm.trans ht'
      cases hold.symm.trans hbody
      obtain ⟨expanded, visits, swept, hrewriting⟩ := RewriteRule.rewriting_of_ok hrewrite
      exact ⟨d.body, hafter, fun later callee hgrows hfits =>
        conserves_of_rewriting hrewriting (hlater.trans hgrows) hfits callee⟩
  · exact hkept (hother t' hne)

theorem editMethod {method : MethodDef} (ht : m.methodDef? t = some method) :
    r.ConservesCalls m ((Module.editMethod t method [] r.rule.rewrite).after m) := by
  obtain ⟨result, m₁, hturn, hother, hrefs, ⟨_, -, hedit⟩ | ⟨_, -, -, hedit⟩⟩ :=
    Module.exists_turn r.confined_rule r.onlyExtends_rule.onlyImports .refl .trans ht
  · rw [Edit.after_ok hedit]
    exact .of_turn hturn hother hrefs
  · rw [Edit.after_error hedit]
    exact .of_turn hturn hother hrefs

end ConservesCalls

end FieldRouting

namespace FieldAccess

open FieldRouting (ConservesCalls)

variable {f : FieldAccess} {env : Environment} {s s' : Session} {r : FieldRouting}

/-- Whatever comes of a pass, it only adds calls that were due. -/
theorem conservesCalls_run (h : FieldRouting.ofModule f s.module env.helpers = .ok r) :
    r.ConservesCalls s.module ((f.run env).after s).module := by
  refine run_preserves (.refl r s.module) fun routing hrouting t m method hm ht => ?_
  rw [h] at hrouting
  cases hrouting
  exact hm.trans (.editMethod ht)

theorem routing_of_run {report : Report} (h : f.run env s = .ok report s') :
    ∃ r, FieldRouting.ofModule f s.module env.helpers = .ok r := by
  rw [run_eq] at h
  cases hrouting : FieldRouting.ofModule f s.module env.helpers with
  | error e =>
    rw [hrouting] at h
    cases h
  | ok r => exact ⟨r, rfl⟩

end FieldAccess

/-! ## Forwarders -/

/-- Nothing is due in a forwarder: it has no access to fields. -/
theorem AccessorForwarding.IsForwarder.due_eq {b : MethodBody} {n : Nat} {backend : Token}
    (h : IsForwarder b n backend) (r : FieldRouting) (refs : ReferenceTable)
    (callee : MethodRef) : r.due refs callee b = 0 := by
  have hplain : ∀ i ∈ forwarder n backend, FieldRouting.isAccess i.op = false := by
    intro i hi
    rw [forwarder_eq, List.mem_append, List.mem_cons, List.mem_singleton] at hi
    rcases hi with hi | rfl | rfl
    · obtain ⟨index, -, rfl⟩ := List.mem_map.mp hi
      rfl
    · rfl
    · rfl
  refine List.sum_eq_zero fun k hk => ?_
  obtain ⟨i, hi, rfl⟩ := List.mem_map.mp hk
  refine FieldRouting.dueFor_eq_zero (Bool.eq_false_iff.mpr fun haccess => ?_)
  have hsaid := hplain i.said (h.code ▸ List.mem_map_of_mem hi)
  have hop : i.op = .ldfld ∨ i.op = .stfld ∨ i.op = .ldflda := by
    simpa only [FieldRouting.isAccess, Bool.or_eq_true, beq_iff_eq, or_assoc] using haccess
  rw [Instruction.said_of_field hop] at hsaid
  exact Bool.false_ne_true (hsaid.symm.trans haccess)

namespace FieldAccess

variable {f : FieldAccess} {env : Environment} {s s' : Session}

/-- What was forwarded before a pass has the same calls after it, of itself or of anything. -/
theorem run_spares_forwarded {forwarding : AccessorForwarding} {m : Module}
    {before report : Report} (hforward : forwarding.run env.helpers m = .ok before s.module)
    (hrun : f.run env s = .ok report s') (hfits : s'.module.references.FitsTokens) :
    ∃ patched : List Token, before.methodsPatched = patched.length ∧
      ∀ t ∈ patched, ∃ method b b', s.module.methodDef? t = some method ∧ method.body = some b ∧
        s'.module.methodDef? t = some { method with body := some b' } ∧
        ∀ callee, b'.callsTo s'.module.references callee =
          b.callsTo s'.module.references callee := by
  obtain ⟨r, hrouting⟩ := routing_of_run hrun
  have hafter := conservesCalls_run hrouting
  rw [Edit.after_ok hrun] at hafter
  obtain ⟨patched, -, hcount, hforwards⟩ :=
    AccessorForwarding.run_eq_ok hforward (hafter.references.fitsTokens hfits)
  refine ⟨patched, hcount, fun t ht => ?_⟩
  obtain ⟨method, backend, token, b, -, hnew, hforwarded⟩ := hforwards.forwarded t ht
  obtain ⟨b', ht', hconserves⟩ := hafter.bodies t _ b hnew rfl
  refine ⟨_, b, b', hnew, rfl, ht', fun callee => ?_⟩
  obtain ⟨htotal, hdue⟩ := hconserves _ callee (.refl _) hfits
  rw [hforwarded.forwarder.due_eq] at htotal hdue
  omega

/-! ## Calls of itself -/

/-- A pass that comes to an end with its report leaves every method the calls it has of itself, and
adds calls of the method itself to it exactly where such calls were due: where it had access to
tracked fields that it is the accessor of. That holds of accessors and of all other methods, whether
the pass followed a record or not. Tokens are read by the references there are at the end. -/
theorem run_conserves_calls {report : Report} (hrun : f.run env s = .ok report s')
    (hfits : s'.module.references.FitsTokens) :
    ∃ r, FieldRouting.ofModule f s.module env.helpers = .ok r ∧
      ∀ t method b, s.module.methodDef? t = some method → method.body = some b →
        ∃ b', s'.module.methodDef? t = some { method with body := some b' } ∧
          let refs := s'.module.references
          let self := s.module.methodRef method
          r.Conserves refs self b b' ∧
          (b.callsTo refs self < b'.callsTo refs self ↔
            r.due refs self b' < r.due refs self b) ∧
          (0 < r.due refs self b ↔ ∃ i ∈ b.code.instructions, ∃ t field,
            i.operand = .token t ∧ refs.field t = .ok field ∧
              FieldRouting.Tracks f s.module field ∧ self ∈ r.accessorsFor i.op field) := by
  obtain ⟨r, hrouting⟩ := routing_of_run hrun
  have hafter := conservesCalls_run hrouting
  rw [Edit.after_ok hrun] at hafter
  refine ⟨r, hrouting, fun t method b ht hbody => ?_⟩
  obtain ⟨b', ht', hconserves⟩ := hafter.bodies t method b ht hbody
  have hself := hconserves _ (s.module.methodRef method) (.refl _) hfits
  refine ⟨b', ht', hself, hself.calls_lt_iff, ?_⟩
  simp only [FieldRouting.due_pos_iff, FieldRouting.tracks_iff hrouting]

/-! ## Accessors that are not forwarded -/

def vector : TypeSig := .valueType "UnityEngine.Vector3"

/-- Saved games with a place besides the score, and with getters that have direct access. -/
def placed : Module :=
  let m := (Module.addField ⟨0x02000001⟩ "position" vector ⟨0x6⟩ []).after savedGames
  let m := (m.importMember (.field ⟨.ofClass "PlayerData", "position", vector⟩)).2
  let m := (Module.addMethod ⟨0x02000001⟩ "GetInt" ⟨0x6⟩ (.forInstance .int32 [.string])
    (bodyOf [.ldarg 0, .of .ldfld (.token ⟨0x0A000001⟩), .plain .ret])).after m
  (Module.addMethod ⟨0x02000001⟩ "GetVector3" ⟨0x6⟩ (.forInstance vector [.string])
    (bodyOf [.ldarg 0, .of .ldfld (.token ⟨0x0A000002⟩), .plain .ret])).after m

def getVector3 : Token := ⟨0x06000002⟩

/-- The helpers: the generic accessors, and a cache that gets integers. -/
def withCache : Environment where
  settings := .standard
  helpers := ⟨accessorHelpers.modules ++
    (AccessorForwarding.caches [("GetInt", .forStatic .int32 [.object, .string])]).modules⟩
  target := none

/-- Saved games as they are. -/
def placedSession : Session := ⟨placed, firstSession.files⟩

/-- Saved games after their accessors were forwarded, as far as accessors are. -/
def forwardedSession : Session :=
  ⟨(AccessorForwarding.standard.run withCache.helpers).after placed, firstSession.files⟩

/-- How many calls of itself a method has by some references. -/
def selfCalls (m : Module) (refs : ReferenceTable) (t : Token) : Nat :=
  (m.methodDef? t).elim 0 fun method =>
    method.body.elim 0 fun b => b.callsTo refs (m.methodRef method)

/-- The getter of places has no call of itself, and access to the place it is the getter of. Such
access is replaced, and there is one call of itself. -/
theorem run_conserves_calls_placed : ∃ (report : Report) (s' : Session) (r : FieldRouting)
    (method : MethodDef) (b b' : MethodBody),
    standard.run withCache forwardedSession = .ok report s' ∧
      FieldRouting.ofModule standard forwardedSession.module withCache.helpers = .ok r ∧
      forwardedSession.module.methodDef? getVector3 = some method ∧ method.body = some b ∧
      s'.module.methodDef? getVector3 = some { method with body := some b' } ∧
      r.Conserves s'.module.references (forwardedSession.module.methodRef method) b b' ∧
      selfCalls forwardedSession.module s'.module.references getVector3 = 0 ∧
      selfCalls s'.module s'.module.references getVector3 = 1 := by
  obtain ⟨report, hrun⟩ := Edit.eq_ok_of_isSome
    (show (EStateM.run' (standard.run withCache) forwardedSession).isSome = true by
      decide +kernel)
  have hfits : ((standard.run withCache).after forwardedSession).module.references.FitsTokens :=
    show ReferenceTable.size _ < _ by decide +kernel
  obtain ⟨r, hrouting, hall⟩ := run_conserves_calls hrun hfits
  obtain ⟨method, ht⟩ := Option.isSome_iff_exists.mp
    (show (forwardedSession.module.methodDef? getVector3).isSome = true by decide +kernel)
  obtain ⟨b, hbody⟩ := Option.isSome_iff_exists.mp
    (show ((forwardedSession.module.methodDef? getVector3).bind MethodDef.body).isSome = true by
      decide +kernel)
  rw [ht, Option.bind_some] at hbody
  obtain ⟨b', ht', hconserves, -, -⟩ := hall getVector3 method b ht hbody
  exact ⟨report, _, r, method, b, b', hrun, hrouting, ht, hbody, ht', hconserves,
    by decide +kernel, by decide +kernel⟩

/-- No accessor that a pass may call has more calls of itself after the pass. -/
def SparesAccessors (f : FieldAccess) (env : Environment) (s : Session) : Prop :=
  ∀ report s' r, f.run env s = .ok report s' →
    FieldRouting.ofModule f s.module env.helpers = .ok r →
    ∀ t method, s.module.methodDef? t = some method →
      s.module.methodRef method ∈ (r.accessors.getters ++ r.accessors.setters).map Prod.snd →
      selfCalls s'.module s'.module.references t ≤ selfCalls s.module s'.module.references t

/-- The token is one of an accessor that a routing may call. -/
def isAccessor (m : Module) (helpers : Resolver) (f : FieldAccess) (t : Token) : Bool :=
  match FieldRouting.ofModule f m helpers, m.methodDef? t with
  | .ok r, some method =>
    ((r.accessors.getters ++ r.accessors.setters).map Prod.snd).contains (m.methodRef method)
  | _, _ => false

theorem not_sparesAccessors {t : Token} (hrun : (EStateM.run' (f.run env) s).isSome = true)
    (haccessor : isAccessor s.module env.helpers f t = true)
    (hmore : selfCalls s.module ((f.run env).after s).module.references t <
      selfCalls ((f.run env).after s).module ((f.run env).after s).module.references t) :
    ¬ f.SparesAccessors env s := by
  obtain ⟨report, hrun⟩ := Edit.eq_ok_of_isSome hrun
  intro hspares
  unfold isAccessor at haccessor
  split at haccessor
  · rename_i r method hrouting ht
    have hle := hspares report _ r hrun hrouting t method ht (List.contains_iff_mem.mp haccessor)
    omega
  · cases haccessor

/-- A pass over the fields makes an accessor call itself, by itself and after accessors were
forwarded: the getter of places is called for places and may have access to one, and is not among
the accessors that are forwarded. -/
theorem not_spares_accessors : ¬ standard.SparesAccessors withCache placedSession ∧
    (∃ report, AccessorForwarding.standard.run withCache.helpers placedSession.module =
      .ok report forwardedSession.module) ∧
    ¬ standard.SparesAccessors withCache forwardedSession := by
  refine ⟨not_sparesAccessors (t := getVector3) ?_ ?_ ?_, Edit.eq_ok_of_isSome ?_,
    not_sparesAccessors (t := getVector3) ?_ ?_ ?_⟩ <;> decide +kernel

end FieldAccess

end CilWeave
