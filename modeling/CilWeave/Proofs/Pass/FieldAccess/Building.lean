import CilWeave.Pass.FieldAccess.Routing
import CilWeave.Proofs.Rewrite.Supplies

/-
What the rule for field access builds.

`Builds` lists the three replacements with what was asked for in each, and
`rule_eq_ok` says that there are no others. What the rule asks for only extends its
supplies, so a token of an accessor names that accessor ever after, and a scratch local
is none of the locals of the method.
-/

namespace CilWeave

theorem Accessors.isCall_choose (declared : List (TypeSig × MethodRef)) (generic : MethodRef)
    (value : TypeSig) : (choose declared generic value).1.isCall = true := by
  unfold choose
  split <;> rfl

namespace FieldRouting

open Execution (TakesAddress)
open Supplies (Extends)

/-! ## Supplies -/

/-- What holds between supplies however often scratch locals and methods are asked for. -/
structure Provided (R : Supplies Unit → Supplies Unit → Prop) : Prop where
  refl : ∀ s, R s s
  trans : ∀ {s s' s''}, R s s' → R s' s'' → R s s''
  scratchLocal : ∀ type, Edit.Ensures (Supplies.scratchLocal type) R
  importMethod : ∀ method, Edit.Ensures (Supplies.importMember (.method method)) R

namespace Provided

variable {R : Supplies Unit → Supplies Unit → Prop} (h : Provided R)

include h

theorem pure {α : Type} (a : α) : Edit.Ensures (Pure.pure a : Edit (Supplies Unit) α) R :=
  Edit.ensures_pure h.refl a

theorem bind {α β : Type} {edit : Edit (Supplies Unit) α} {next : α → Edit (Supplies Unit) β}
    (hedit : edit.Ensures R) (hnext : ∀ a, (next a).Ensures R) : Edit.Ensures (edit >>= next) R :=
  Edit.Ensures.bind (fun _ _ _ => h.trans) hedit hnext

theorem callOf (accessor : OpCode × MethodRef) : Edit.Ensures (callOf accessor) R :=
  h.bind (h.importMethod _) fun _ => h.pure _

theorem load (r : FieldRouting) (field : FieldRef) : Edit.Ensures (r.load field) R :=
  h.bind (h.callOf _) fun _ => h.pure _

theorem store (r : FieldRouting) (field : FieldRef) : Edit.Ensures (r.store field) R :=
  h.bind (h.scratchLocal _) fun _ => h.bind (h.callOf _) fun _ => h.pure _

theorem address (r : FieldRouting) (field : FieldRef) : Edit.Ensures (r.address field) R :=
  h.bind (h.scratchLocal _) fun _ => h.bind (h.callOf _) fun _ =>
    h.bind (h.callOf _) fun _ => h.pure _

theorem replacement (r : FieldRouting) (body : MethodBody) (site : InstrId) (op : OpCode)
    (field : FieldRef) : Edit.Ensures (r.replacement body site op field) R := by
  intro s
  unfold FieldRouting.replacement
  split
  · exact (h.load r field).map some s
  · exact (h.store r field).map some s
  -- The address of a field is only replaced where it is handed on.
  · unfold Edit.after
    by_cases hhands : handsOn body site s.references = true
    · simp only [if_pos hhands]
      exact (h.address r field).map some s
    · simp only [if_neg hhands]
      exact h.refl s
  · exact h.refl s

theorem rule (r : FieldRouting) (body : MethodBody) (site : InstrId) :
    Edit.Ensures (r.rule.build body site) R := by
  intro s
  unfold Edit.after FieldRouting.rule
  simp only
  cases body.instruction site with
  | error e => exact h.refl s
  | ok i =>
    simp only
    cases i.token? with
    | none => exact h.refl s
    | some t =>
      simp only
      cases s.references.field t with
      | error e => exact h.refl s
      | ok field => exact h.replacement r body site i.op field s

end Provided

theorem provided_extends : Provided Extends where
  refl := .refl
  trans := .trans
  scratchLocal := Supplies.extends_scratchLocal
  importMethod method := Supplies.extends_importMember (.method method)

theorem extends_callOf (accessor : OpCode × MethodRef) :
    Edit.Ensures (callOf accessor) Extends := provided_extends.callOf accessor

theorem onlyExtends_rule (r : FieldRouting) : r.rule.OnlyExtends := provided_extends.rule r

/-! ## Calls of accessors -/

/-- What calls an accessor, in every table from now on that has room for tokens. -/
theorem callOf_eq_ok {accessor : OpCode × MethodRef} {s s' : Supplies Unit} {i : Instruction}
    (h : callOf accessor s = .ok i s') :
    i.op = accessor.1 ∧ (∃ t, i = .of accessor.1 (.token t)) ∧
      ∀ later, s'.references.GrowsTo later → later.FitsTokens →
        i.calledMethod later = .ok accessor.2 := by
  obtain ⟨t, s₁, himport, hpure⟩ := Edit.bind_eq_ok h
  cases hpure
  refine ⟨rfl, ⟨t, rfl⟩, fun later hgrows hfits => ?_⟩
  have hmethod : later.method t = .ok accessor.2 := by
    unfold ReferenceTable.method
    rw [Supplies.get_importMember himport hgrows hfits]
  exact Instruction.calledMethod_of_method rfl hmethod

/-! ## What is handed on -/

theorem takesOneAddress_iff {method : MethodRef} :
    takesOneAddress method = true ↔ TakesAddress method := by
  unfold takesOneAddress TakesAddress
  rw [Bool.and_eq_true, Bool.and_eq_true, Bool.not_eq_true', and_assoc]
  refine and_congr_right fun _ => and_congr_right fun _ => ?_
  constructor
  · intro h
    split at h
    · rename_i parameter hparameters
      exact ⟨parameter, hparameters, h⟩
    · cases h
  · rintro ⟨parameter, hparameters, hbyRef⟩
    rw [hparameters]
    exact hbyRef

/-- An address is handed on by a call that nothing else leads to. -/
theorem of_handsOn {body : MethodBody} {site : InstrId} {refs : ReferenceTable}
    (h : handsOn body site refs = true) :
    ∃ y i t callee, body.code.next? site = some y ∧ body.code.get? y = some i ∧ i.op = .call ∧
      i.operand = .token t ∧ refs.method t = .ok callee ∧ TakesAddress callee ∧
      y ∉ body.referenced := by
  unfold handsOn at h
  split at h
  · cases h
  · rename_i y hy
    split at h
    · cases h
    · rename_i i hi
      obtain ⟨hop, h⟩ := Bool.and_eq_true_iff.mp h
      split at h
      · cases h
      · rename_i t ht
        split at h
        · cases h
        · rename_i callee hcallee
          obtain ⟨htakes, hreferenced⟩ := Bool.and_eq_true_iff.mp h
          refine ⟨y, i, t, callee, hy, hi, eq_of_beq hop, Instruction.token?_eq_some.mp ht,
            hcallee, takesOneAddress_iff.mp htakes, fun hmem => ?_⟩
          rw [List.contains_iff_mem.mpr hmem] at hreferenced
          cases hreferenced

/-! ## Replacements -/

/-- What the rule puts in the place of an access to a field, with what it asks for. -/
inductive Builds (r : FieldRouting) (body : MethodBody) (site : InstrId) (op : OpCode)
    (field : FieldRef) (s s' : Supplies Unit) : Replacement → Prop where
  | load {get : Instruction} : op = .ldfld →
      callOf (r.accessors.getter field.fieldType) s = .ok get s' →
      Builds r body site op field s s' ⟨[.ldstr field.name, get], []⟩
  | store {value : UInt16} {set : Instruction} {s₁ : Supplies Unit} : op = .stfld →
      Supplies.scratchLocal field.fieldType s = .ok value s₁ →
      callOf (r.accessors.setter field.fieldType) s₁ = .ok set s' →
      Builds r body site op field s s'
        ⟨[.stloc value, .ldstr field.name, .ldloc value, set], []⟩
  | address {value : UInt16} {get set : Instruction} {s₁ s₂ : Supplies Unit} :
      op = .ldflda → handsOn body site s.references = true →
      Supplies.scratchLocal field.fieldType s = .ok value s₁ →
      callOf (r.accessors.getter field.fieldType) s₁ = .ok get s₂ →
      callOf (r.accessors.setter field.fieldType) s₂ = .ok set s' →
      Builds r body site op field s s'
        ⟨[.plain .dup, .ldstr field.name, get, .stloc value, .ldloca value],
          [.ldstr field.name, .ldloc value, set]⟩

variable {r : FieldRouting} {body : MethodBody} {site : InstrId} {s s' : Supplies Unit}
  {replacement : Replacement}

theorem replacement_eq_ok {op : OpCode} {field : FieldRef}
    (h : r.replacement body site op field s = .ok (some replacement) s') :
    r.Builds body site op field s s' replacement := by
  unfold FieldRouting.replacement at h
  split at h
  · obtain ⟨_, hload, heq⟩ := Edit.map_eq_ok h
    cases heq
    obtain ⟨get, s₁, hget, hpure⟩ := Edit.bind_eq_ok hload
    cases hpure
    exact .load rfl hget
  · obtain ⟨_, hstore, heq⟩ := Edit.map_eq_ok h
    cases heq
    obtain ⟨value, s₁, hvalue, hrest⟩ := Edit.bind_eq_ok hstore
    obtain ⟨set, s₂, hset, hpure⟩ := Edit.bind_eq_ok hrest
    cases hpure
    exact .store rfl hvalue hset
  · by_cases hhands : handsOn body site s.references = true
    · rw [if_pos hhands] at h
      obtain ⟨_, haddress, heq⟩ := Edit.map_eq_ok h
      cases heq
      obtain ⟨value, s₁, hvalue, hrest⟩ := Edit.bind_eq_ok haddress
      obtain ⟨get, s₂, hget, hrest⟩ := Edit.bind_eq_ok hrest
      obtain ⟨set, s₃, hset, hpure⟩ := Edit.bind_eq_ok hrest
      cases hpure
      exact .address rfl hhands hvalue hget hset
    · rw [if_neg hhands] at h
      cases h
  · cases h

/-- A replacement is one of these, for the field that the instruction names. -/
theorem rule_eq_ok (h : r.rule.build body site s = .ok (some replacement) s') :
    ∃ i t field, body.code.get? site = some i ∧ i.operand = .token t ∧
      s.references.field t = .ok field ∧ r.Builds body site i.op field s s' replacement := by
  unfold rule MethodBody.instruction at h
  simp only at h
  cases hi : body.code.get? site with
  | none => rw [hi] at h; cases h
  | some i =>
    rw [hi] at h
    simp only at h
    cases ht : i.token? with
    | none => rw [ht] at h; cases h
    | some t =>
      rw [ht] at h
      simp only at h
      have hoperand := Instruction.token?_eq_some.mp ht
      cases hfield : s.references.field t with
      | error e => rw [hfield] at h; cases h
      | ok field =>
        rw [hfield] at h
        exact ⟨i, t, field, rfl, hoperand, hfield, replacement_eq_ok h⟩

end FieldRouting

end CilWeave
