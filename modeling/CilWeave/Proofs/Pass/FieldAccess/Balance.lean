import CilWeave.Proofs.Execution.Depth
import CilWeave.Proofs.Pass.FieldAccess.Replay
import CilWeave.Proofs.Run.Registry

/-
What routed field access does to the evaluation stack.

An access to a field takes as many values as it always took and gives as many, whatever is
below them on the stack, if the accessors that are called have the shape that is meant: a
declared accessor is an instance method and the generic one is static, getters return a value
and setters return nothing (`FieldRouting.balances_of_shaped`). When a routing is made, accessors
are looked up by name and number of parameters alone, so nothing keeps them in shape; what has to
hold of the methods that are found is a matter of counting (`FieldRouting.Builds.neutral_iff`).
-/

namespace CilWeave

open Execution (TakesAddress)

/-! ## The depth along straight code -/

variable {refs : ReferenceTable} {returnType : TypeSig} {code : List Instruction}
  {i : Instruction} {takes gives depth after : Nat}

/-- The depth of the stack after some instructions in a row. There is none if one of them pops
more than there is, or has no effect. -/
def depthAfter (refs : ReferenceTable) (returnType : TypeSig) : List Instruction → Nat → Option Nat
  | [], depth => some depth
  | i :: rest, depth =>
    match i.stackEffect refs returnType with
    | .error _ => none
    | .ok (pops, pushes) =>
      if pops ≤ depth then depthAfter refs returnType rest (depth - pops + pushes) else none

theorem depthAfter_cons {pops pushes : Nat} (h : i.stackEffect refs returnType = .ok (pops, pushes))
    (code : List Instruction) (depth : Nat) : depthAfter refs returnType (i :: code) depth =
      if pops ≤ depth then depthAfter refs returnType code (depth - pops + pushes) else none := by
  rw [depthAfter, h]

/-- What is below on the stack stays below. -/
theorem depthAfter_add (below : Nat) : ∀ {code : List Instruction} {depth : Nat},
    depthAfter refs returnType code depth = some after →
    depthAfter refs returnType code (below + depth) = some (below + after)
  | [], depth, h => congrArg (Option.map (below + ·)) h
  | i :: code, depth, h => by
    cases heffect : i.stackEffect refs returnType with
    | error e =>
      rw [depthAfter, heffect] at h
      cases h
    | ok effect =>
      obtain ⟨pops, pushes⟩ := effect
      rw [depthAfter_cons heffect] at h ⊢
      by_cases hpops : pops ≤ depth
      · rw [if_pos hpops] at h
        rw [if_pos (Nat.le_trans hpops (Nat.le_add_left depth below)),
          Nat.add_sub_assoc hpops, Nat.add_assoc]
        exact depthAfter_add below h
      · rw [if_neg hpops] at h
        cases h

/-- Some instructions in a row take so many values from the stack and give so many, and never
touch what is below them. -/
def Exchanges (refs : ReferenceTable) (returnType : TypeSig) (code : List Instruction)
    (takes gives : Nat) : Prop :=
  ∀ below, depthAfter refs returnType code (below + takes) = some (below + gives)

theorem exchanges_iff : Exchanges refs returnType code takes gives ↔
    depthAfter refs returnType code takes = some gives := by
  constructor
  · intro h
    have hzero := h 0
    rwa [Nat.zero_add, Nat.zero_add] at hzero
  · exact fun h below => depthAfter_add below h

section Straight

variable {name : String} {index : UInt16}

theorem depthAfter_of_fixed {pops pushes : Nat} (h : i.op.info.stack = .fixed pops pushes)
    (hle : pops ≤ depth) : depthAfter refs returnType (i :: code) depth =
      depthAfter refs returnType code (depth - pops + pushes) := by
  rw [depthAfter_cons (Instruction.stackEffect_of_fixed h), if_pos hle]

@[simp]
theorem depthAfter_ldstr : depthAfter refs returnType (.ldstr name :: code) depth =
    depthAfter refs returnType code (depth + 1) :=
  depthAfter_of_fixed rfl (Nat.zero_le depth)

@[simp]
theorem depthAfter_ldloc : depthAfter refs returnType (.ldloc index :: code) depth =
    depthAfter refs returnType code (depth + 1) :=
  depthAfter_of_fixed rfl (Nat.zero_le depth)

@[simp]
theorem depthAfter_ldloca : depthAfter refs returnType (.ldloca index :: code) depth =
    depthAfter refs returnType code (depth + 1) :=
  depthAfter_of_fixed rfl (Nat.zero_le depth)

@[simp]
theorem depthAfter_dup : depthAfter refs returnType (.plain .dup :: code) (depth + 1) =
    depthAfter refs returnType code (depth + 2) :=
  depthAfter_of_fixed rfl (Nat.le_add_left 1 depth)

theorem depthAfter_stloc : depthAfter refs returnType (.stloc index :: code) depth =
    if 1 ≤ depth then depthAfter refs returnType code (depth - 1) else none := by
  rw [depthAfter_cons (Instruction.stackEffect_of_fixed rfl), Nat.add_zero]

end Straight

/-! ## Accessors -/

namespace Accessors

variable {f : FieldAccess} {m : Module} {tracked : TypeDef} {helpers : Resolver} {a : Accessors}
  {value : TypeSig}

/-- The accessors for a type of fields have the shape that is meant. -/
structure Shaped (a : Accessors) (value : TypeSig) : Prop where
  getter : (a.getter value).2.signature.hasThis = ((a.getter value).1 == .callvirt)
  setter : (a.setter value).2.signature.hasThis = ((a.setter value).1 == .callvirt)
  gets : (a.getter value).2.returnType.isVoid = false
  sets : (a.setter value).2.returnType.isVoid = true

/-- A declared accessor is told by how many parameters it has besides the object. -/
structure Counted (declared : List (TypeSig × MethodRef)) (generic : MethodRef) (count : Nat) :
    Prop where
  declared : ∀ entry ∈ declared, entry.2.signature.parameters.length = count
  generic : generic.signature.parameters.length = count + 1

/-- An accessor takes the object, be it as `this` or as the first parameter, and `count` values
more, if it is an instance method exactly if it is a declared one. -/
theorem Counted.pops_choose {declared : List (TypeSig × MethodRef)} {generic : MethodRef}
    {count : Nat} (h : Counted declared generic count)
    (hshape : (choose declared generic value).2.signature.hasThis =
      ((choose declared generic value).1 == .callvirt)) :
    (choose declared generic value).2.pops = count + 1 := by
  unfold choose at hshape ⊢
  unfold MethodRef.pops MethodSig.argumentCount
  split at hshape
  · rename_i entry method hfind
    simp only
    rw [h.declared _ (List.mem_of_find?_eq_some hfind), hshape]
    rfl
  · simp only
    rw [hshape]
    exact h.generic

theorem length_of_gets {method : MethodDef} (h : f.gets? method = some value) :
    method.signature.parameters.length = 1 := by
  unfold FieldAccess.gets? at h
  split at h
  · split at h
    · rename_i hcond
      exact eq_of_beq (Bool.and_eq_true_iff.mp hcond).2
    · cases h
  · cases h

theorem length_of_sets {method : MethodDef} (h : f.sets? method = some value) :
    method.signature.parameters.length = 2 := by
  unfold FieldAccess.sets? at h
  split at h
  · split at h
    · rename_i hparameters
      rw [hparameters]
      rfl
    · cases h
  · cases h

theorem length_of_resolve {module : String} {q : MethodQuery} {count : Nat} {method : MethodRef}
    (hcount : q.parameterCount = some count) (h : helpers.resolve module q = .ok method) :
    method.signature.parameters.length = count := by
  obtain ⟨m, found, -, hfound, rfl⟩ := Resolver.resolve_eq_ok.mp h
  have haccepts := MethodQuery.accepts_of_resolve hfound
  unfold MethodQuery.accepts at haccepts
  simp only [Bool.and_eq_true, hcount, MethodQuery.meets] at haccepts
  exact eq_of_beq haccepts.1.1.1.1.1.2

theorem length_of_declared {value? : MethodDef → Option TypeSig} {methods : List MethodDef}
    {count : Nat} (h : ∀ method value, value? method = some value →
      method.signature.parameters.length = count) :
    ∀ entry ∈ methods.filterMap fun method => (value? method).map (·, m.methodRef method),
      entry.2.signature.parameters.length = count := by
  intro entry hentry
  obtain ⟨method, -, hmap⟩ := List.mem_filterMap.mp hentry
  obtain ⟨value, hvalue, rfl⟩ := Option.map_eq_some_iff.mp hmap
  exact h method value hvalue

theorem counted_of_ofType (h : ofType f m tracked helpers = .ok a) :
    Counted a.getters a.genericGetter 1 ∧ Counted a.setters a.genericSetter 2 := by
  unfold ofType at h
  simp only [bind, Except.bind] at h
  split at h
  · cases h
  · rename_i getter hgetter
    split at h
    · cases h
    · rename_i setter hsetter
      cases h
      exact ⟨⟨length_of_declared fun _ _ => length_of_gets, length_of_resolve rfl hgetter⟩,
        ⟨length_of_declared fun _ _ => length_of_sets, length_of_resolve rfl hsetter⟩⟩

end Accessors

/-! ## Accesses -/

/-- What stands between the sequence of a replacement and its trailer. -/
def MethodBody.wrapped (b : MethodBody) (site : InstrId) (replacement : Replacement) :
    List Instruction :=
  if replacement.trailer.isEmpty then [] else ((b.code.next? site).bind b.code.get?).toList

/-- An access takes and gives as many values as before. What is loaded as an address counts
together with the call that is handed the address. -/
structure Neutral (refs : ReferenceTable) (returnType : TypeSig) (body : MethodBody)
    (site : InstrId) (i : Instruction) (replacement : Replacement) (exchanged : Nat × Nat) :
    Prop where
  original : Exchanges refs returnType (i :: body.wrapped site replacement) exchanged.1 exchanged.2
  replaced : Exchanges refs returnType
    (replacement.sequence ++ body.wrapped site replacement ++ replacement.trailer)
    exchanged.1 exchanged.2

namespace FieldRouting

/-- How many values an access takes and gives. -/
def exchanged (op : OpCode) : Nat × Nat :=
  match op with
  | .stfld => (2, 0)
  | .ldflda => (1, 0)
  | _ => (1, 1)

/-- What has to hold of the accessors if an access is to be neutral. -/
def Balances (op : OpCode) (getter setter : MethodRef) : Prop :=
  match op with
  | .stfld => setter.pops = 3 ∧ setter.pushes = 0
  | .ldflda => getter.pops ≤ getter.pushes + 2 ∧
      getter.pops + setter.pops = getter.pushes + 4 ∧ setter.pushes = 0
  | _ => getter.pops = getter.pushes + 1

section Counting

variable {name : String} {index : UInt16} {get set call : Instruction}
  {getter setter : MethodRef}

theorem exchanges_load (hget : get.stackEffect refs returnType = .ok (getter.pops, getter.pushes)) :
    Exchanges refs returnType [.ldstr name, get] 1 1 ↔ getter.pops = getter.pushes + 1 := by
  have hpushes := getter.pushes_le
  rw [exchanges_iff, depthAfter_ldstr, depthAfter_cons hget]
  split
  · rw [depthAfter, Option.some.injEq]
    omega
  · exact ⟨nofun, by omega⟩

theorem exchanges_store
    (hset : set.stackEffect refs returnType = .ok (setter.pops, setter.pushes)) :
    Exchanges refs returnType [.stloc index, .ldstr name, .ldloc index, set] 2 0 ↔
      setter.pops = 3 ∧ setter.pushes = 0 := by
  rw [exchanges_iff, depthAfter_stloc, if_pos (by decide), depthAfter_ldstr, depthAfter_ldloc,
    depthAfter_cons hset]
  split
  · rw [depthAfter, Option.some.injEq]
    omega
  · exact ⟨nofun, by omega⟩

theorem exchanges_address
    (hget : get.stackEffect refs returnType = .ok (getter.pops, getter.pushes))
    (hcall : call.stackEffect refs returnType = .ok (1, 0))
    (hset : set.stackEffect refs returnType = .ok (setter.pops, setter.pushes)) :
    Exchanges refs returnType ([.plain .dup, .ldstr name, get, .stloc index, .ldloca index] ++
        [call] ++ [.ldstr name, .ldloc index, set]) 1 0 ↔
      getter.pops ≤ getter.pushes + 2 ∧ getter.pops + setter.pops = getter.pushes + 4 ∧
        setter.pushes = 0 := by
  have hpushes := getter.pushes_le
  rw [exchanges_iff]
  show depthAfter refs returnType [.plain .dup, _, get, _, _, call, _, _, set] 1 = some 0 ↔ _
  rw [depthAfter_dup, depthAfter_ldstr, depthAfter_cons hget]
  split
  · -- What the getter leaves has to be there for the scratch local.
    rw [depthAfter_stloc]
    split
    · rw [depthAfter_ldloca, depthAfter_cons hcall, if_pos (Nat.le_add_left 1 _),
        depthAfter_ldstr, depthAfter_ldloc, depthAfter_cons hset]
      split
      · rw [depthAfter, Option.some.injEq]
        omega
      · exact ⟨nofun, by omega⟩
    · exact ⟨nofun, by omega⟩
  · exact ⟨nofun, by omega⟩

end Counting

variable {r : FieldRouting} {f : FieldAccess} {m : Module} {helpers : Resolver}
  {body : MethodBody} {site : InstrId} {s s' : Supplies Unit} {replacement : Replacement}
  {later : ReferenceTable}

theorem stackEffect_callOf {accessor : OpCode × MethodRef} {s s' : Supplies Unit}
    {i : Instruction} (h : callOf accessor s = .ok i s') (hcall : accessor.1.isCall = true)
    (hgrows : s'.references.GrowsTo later) (hfits : later.FitsTokens) :
    i.stackEffect later returnType = .ok (accessor.2.pops, accessor.2.pushes) := by
  obtain ⟨hop, -, hcalled⟩ := callOf_eq_ok h
  exact Instruction.stackEffect_of_call (hop ▸ hcall) (hcalled later hgrows hfits)

theorem stackEffect_wrapped {callee : MethodRef} {t : Token} (hop : i.op = .call)
    (hoperand : i.operand = .token t) (hcallee : later.method t = .ok callee)
    (htakes : TakesAddress callee) : i.stackEffect later returnType = .ok (1, 0) := by
  have hcall : i.op.isCall = true := by rw [hop]; rfl
  rw [Instruction.stackEffect_of_call hcall (Instruction.calledMethod_of_method hoperand hcallee),
    htakes.pops_eq]
  unfold MethodRef.pushes
  rw [if_pos htakes.2.1]

/-- Whether an access is neutral is a matter of counting what its accessors pop and push. -/
theorem Builds.neutral_iff {field : FieldRef} (returnType : TypeSig)
    (h : r.Builds body site i.op field s s' replacement) (hgrows : s'.references.GrowsTo later)
    (hfits : later.FitsTokens) :
    Neutral later returnType body site i replacement (exchanged i.op) ↔
      Balances i.op (r.accessors.getter field.fieldType).2
        (r.accessors.setter field.fieldType).2 := by
  have hgetter := Accessors.isCall_choose r.accessors.getters r.accessors.genericGetter
    field.fieldType
  have hsetter := Accessors.isCall_choose r.accessors.setters r.accessors.genericSetter
    field.fieldType
  have horiginal : ∀ {takes gives : Nat}, i.op.info.stack = .fixed takes gives →
      Exchanges later returnType [i] takes gives := by
    intro takes gives hstack
    rw [exchanges_iff, depthAfter_of_fixed hstack (Nat.le_refl takes), Nat.sub_self, Nat.zero_add]
    rfl
  cases h with
  | @load get hop hcall =>
    have hload : Exchanges later returnType [.ldstr field.name, get] 1 1 ↔ _ :=
      exchanges_load (stackEffect_callOf hcall hgetter hgrows hfits)
    rw [hop]
    exact ⟨fun h => hload.mp h.replaced, fun h => ⟨horiginal (by rw [hop]; rfl), hload.mpr h⟩⟩
  | @store index set _ hop hvalue hcall =>
    have hstore : Exchanges later returnType
        [.stloc index, .ldstr field.name, .ldloc index, set] 2 0 ↔ _ :=
      exchanges_store (stackEffect_callOf hcall hsetter hgrows hfits)
    rw [hop]
    exact ⟨fun h => hstore.mp h.replaced, fun h => ⟨horiginal (by rw [hop]; rfl), hstore.mpr h⟩⟩
  | @address index get set _ _ hop hhands hvalue hcall hcall' =>
    obtain ⟨y, call, t, callee, hy, hi, hcallOp, hoperand, hcallee, htakes, -⟩ := of_handsOn hhands
    have hextends := (extends_callOf _).of_ok hcall'
    have hfirst := (Supplies.extends_scratchLocal _).of_ok hvalue
    have hcallee' := (((hfirst.trans ((extends_callOf _).of_ok hcall)).trans
      hextends).references.trans hgrows).method_eq_ok hcallee
    have hwrapped : call.stackEffect later returnType = .ok (1, 0) :=
      stackEffect_wrapped hcallOp hoperand hcallee' htakes
    have haddress : Exchanges later returnType ([.plain .dup, .ldstr field.name, get,
        .stloc index, .ldloca index] ++ [call] ++ [.ldstr field.name, .ldloc index, set]) 1 0 ↔ _ :=
      exchanges_address (stackEffect_callOf hcall hgetter (hextends.references.trans hgrows) hfits)
        hwrapped (stackEffect_callOf hcall' hsetter hgrows hfits)
    have hbetween : body.wrapped site ⟨[.plain .dup, .ldstr field.name, get, .stloc index,
        .ldloca index], [.ldstr field.name, .ldloc index, set]⟩ = [call] := by
      unfold MethodBody.wrapped
      rw [hy, Option.bind_some, hi]
      rfl
    have hloaded : Exchanges later returnType [i, call] 1 0 := by
      have hi : i.op.info.stack = .fixed 1 1 := by rw [hop]; rfl
      rw [exchanges_iff, depthAfter_of_fixed hi (Nat.le_refl 1), depthAfter_cons hwrapped]
      rfl
    rw [hop]
    refine ⟨fun h => ?_, fun h => ⟨?_, ?_⟩⟩
    · have hreplaced := h.replaced
      rw [hbetween] at hreplaced
      exact haddress.mp hreplaced
    · rw [hbetween]
      exact hloaded
    · rw [hbetween]
      exact haddress.mpr h

/-- The accessors of a routing are looked up by how many parameters they have. -/
theorem counted_of_ofModule (h : ofModule f m helpers = .ok r) :
    Accessors.Counted r.accessors.getters r.accessors.genericGetter 1 ∧
      Accessors.Counted r.accessors.setters r.accessors.genericSetter 2 := by
  unfold ofModule at h
  split at h
  · cases h
  · rename_i tracked _
    cases haccessors : Accessors.ofType f m tracked helpers with
    | error e => simp only [bind, Except.bind, haccessors] at h; cases h
    | ok a =>
      simp only [bind, Except.bind, haccessors] at h
      cases h
      exact Accessors.counted_of_ofType haccessors

/-- Accessors that have the shape that is meant balance. -/
theorem balances_of_shaped {value : TypeSig} (h : ofModule f m helpers = .ok r)
    (hshaped : r.accessors.Shaped value) (op : OpCode) :
    Balances op (r.accessors.getter value).2 (r.accessors.setter value).2 := by
  obtain ⟨hgetters, hsetters⟩ := counted_of_ofModule h
  have hgetter : (r.accessors.getter value).2.pops = 2 := hgetters.pops_choose hshaped.getter
  have hsetter : (r.accessors.setter value).2.pops = 3 := hsetters.pops_choose hshaped.setter
  have hgets : (r.accessors.getter value).2.pushes = 1 := by
    unfold MethodRef.pushes
    rw [hshaped.gets]
    rfl
  have hsets : (r.accessors.setter value).2.pushes = 0 := by
    unfold MethodRef.pushes
    rw [hshaped.sets]
    rfl
  unfold Balances
  rw [hgetter, hsetter, hgets, hsets]
  split <;> decide

/-- A routing was made for a module, and its rule replaces an access. The access then takes and
gives as many values as before if and only if what its accessors pop and push adds up, and that
it does if declared accessors are instance methods, the generic ones are static, getters return a
value and setters return nothing. Effects are those by the references of the module from then on,
as long as tokens can tell them apart. -/
theorem neutral_iff_balances (returnType : TypeSig) (hnew : ofModule f m helpers = .ok r)
    (hbuild : r.rule.build body site s = .ok (some replacement) s')
    (hgrows : s'.references.GrowsTo later) (hfits : later.FitsTokens) :
    ∃ i t field, body.code.get? site = some i ∧ (i.op = .ldfld ∨ i.op = .stfld ∨ i.op = .ldflda) ∧
      i.operand = .token t ∧ s.references.field t = .ok field ∧
      (Neutral later returnType body site i replacement (exchanged i.op) ↔
        Balances i.op (r.accessors.getter field.fieldType).2
          (r.accessors.setter field.fieldType).2) ∧
      (r.accessors.Shaped field.fieldType →
        Neutral later returnType body site i replacement (exchanged i.op)) := by
  obtain ⟨i, t, field, hi, hoperand, hfield, hbuilds⟩ := rule_eq_ok hbuild
  have hneutral := hbuilds.neutral_iff returnType hgrows hfits
  refine ⟨i, t, field, hi, ?_, hoperand, hfield, hneutral,
    fun hshaped => hneutral.mpr (balances_of_shaped hnew hshaped i.op)⟩
  cases hbuilds with
  | load hop => exact .inl hop
  | store hop => exact .inr (.inl hop)
  | address hop => exact .inr (.inr hop)

/-! ## Accessors in shape and out of shape -/

open FieldAccess (savedGames accessorHelpers)

/-- Saved games that declare a getter for integers with these flags. -/
def withGetter (flags : MethodFlags) : Module :=
  (Module.addMethod ⟨0x02000001⟩ "GetInt" flags
    ⟨!flags.isStatic, .int32, [.string], 0⟩ none).after savedGames

/-- The routing of the score through such a getter and the generic setter. -/
def getterRouting (flags : MethodFlags) : FieldRouting where
  trackedType := "PlayerData"
  fields := ["score"]
  accessors := ⟨[(.int32, .plain (.ofClass "PlayerData") "GetInt"
      ⟨!flags.isStatic, .int32, [.string], 0⟩)], [],
    .plain (.ofClass "TeamCherry.SharedUtils.VariableExtensions") "GetVariable"
      ⟨false, .mvar 0, [.object, .string], 1⟩,
    .plain (.ofClass "TeamCherry.SharedUtils.VariableExtensions") "SetVariable"
      ⟨false, .void, [.object, .string, .mvar 0], 1⟩⟩

/-- A method that takes an integer by its address. -/
def raiser : MethodRef := .plain (.ofClass "Game.User") "Raise" ⟨false, .void, [.byRef .int32], 0⟩

/-- Nothing was asked for yet, and the score and that method can be referred to. -/
def raiserSupplies : Supplies Unit :=
  ⟨#[], .empty, (savedGames.references.intern (.method raiser)).2, ()⟩

/-- Reads the score, and raises it through its address. -/
def raising : MethodBody := ((MethodBody.ofList
  [.ldarg 0, .of .ldfld (.token ⟨0x0A000001⟩), .plain .pop,
    .ldarg 0, .of .ldflda (.token ⟨0x0A000001⟩), .of .call (.token ⟨0x0A000002⟩),
    .plain .ret]).toOption).getD default

/-- With an instance getter, the score is raised as before as far as the stack goes. -/
theorem neutral_raising : ∃ (replacement : Replacement) (s' : Supplies Unit),
    ofModule .standard (withGetter ⟨0x6⟩) accessorHelpers = .ok (getterRouting ⟨0x6⟩) ∧
    (getterRouting ⟨0x6⟩).rule.build raising ⟨4⟩ raiserSupplies = .ok (some replacement) s' ∧
    Neutral s'.references .void raising ⟨4⟩ (.of .ldflda (.token ⟨0x0A000001⟩)) replacement
      (1, 0) := by
  have hnew : ofModule .standard (withGetter ⟨0x6⟩) accessorHelpers =
      .ok (getterRouting ⟨0x6⟩) := by decide +kernel
  have hrun : EStateM.run' ((getterRouting ⟨0x6⟩).rule.build raising ⟨4⟩) raiserSupplies =
      some (some
        ⟨[.plain .dup, .ldstr "score", .of .callvirt (.token ⟨0x0A000003⟩), .stloc 0, .ldloca 0],
          [.ldstr "score", .ldloc 0, .of .call (.token ⟨0x2B000004⟩)]⟩) := by decide +kernel
  have hbuild := Edit.eq_ok_of_run' hrun
  have hfits : (((getterRouting ⟨0x6⟩).rule.build raising ⟨4⟩).after
      raiserSupplies).references.FitsTokens := show ReferenceTable.size _ < _ by decide +kernel
  obtain ⟨i, t, field, hi, -, hoperand, hfield, -, hneutral⟩ :=
    neutral_iff_balances .void hnew hbuild (.refl _) hfits
  have hi' : raising.code.get? ⟨4⟩ = some (.of .ldflda (.token ⟨0x0A000001⟩)) := by decide +kernel
  obtain rfl := Option.some.inj (hi.symm.trans hi')
  cases hoperand
  have hscore : raiserSupplies.references.field ⟨0x0A000001⟩ = .ok FieldAccess.savedScore := by
    decide +kernel
  obtain rfl := Except.ok.inj (hfield.symm.trans hscore)
  exact ⟨_, _, hnew, hbuild, hneutral ⟨by decide +kernel, by decide +kernel, by decide +kernel,
    by decide +kernel⟩⟩

/-- A static getter of the right name takes the place of an instance getter. It leaves the object
on the stack. -/
theorem not_neutral_static : ∃ (replacement : Replacement) (s' : Supplies Unit),
    ofModule .standard (withGetter ⟨0x16⟩) accessorHelpers = .ok (getterRouting ⟨0x16⟩) ∧
    (getterRouting ⟨0x16⟩).rule.build raising ⟨1⟩ raiserSupplies = .ok (some replacement) s' ∧
    depthAfter s'.references .void replacement.sequence 1 = some 2 ∧
    ¬ Neutral s'.references .void raising ⟨1⟩ (.of .ldfld (.token ⟨0x0A000001⟩)) replacement
      (1, 1) := by
  have hrun : EStateM.run' ((getterRouting ⟨0x16⟩).rule.build raising ⟨1⟩) raiserSupplies =
      some (some ⟨[.ldstr "score", .of .callvirt (.token ⟨0x0A000003⟩)], []⟩) := by decide +kernel
  have hdepth : depthAfter (((getterRouting ⟨0x16⟩).rule.build raising ⟨1⟩).after
      raiserSupplies).references .void
        [.ldstr "score", .of .callvirt (.token ⟨0x0A000003⟩)] 1 = some 2 := by decide +kernel
  refine ⟨_, _, by decide +kernel, Edit.eq_ok_of_run' hrun, hdepth, fun hneutral => ?_⟩
  have hone := exchanges_iff.mp hneutral.replaced
  have hsame : some 2 = some 1 := hdepth.symm.trans hone
  cases hsame

end FieldRouting

end CilWeave
