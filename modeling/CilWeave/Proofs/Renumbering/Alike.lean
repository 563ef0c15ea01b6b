import CilWeave.Encoding.Layout
import CilWeave.Proofs.Encoding.Forms
import CilWeave.Proofs.InstructionList.Edits
import CilWeave.Proofs.References

/-
Bodies that differ in the numbers of their references alone.

A token is a row of a table, and two tables that grew from one by the same imports in
another order name a member by different rows. `ReferenceTable.SameMember` compares tokens
by what they name, each in its own table. `Alike` carries this up to operands,
instructions, code and bodies: all else is equal. The lemmas say that whatever an edit of
the code can see of an instruction is the same on both sides, and that what it does keeps
the two sides alike.
-/

namespace CilWeave

/-- The token names no member, whatever the table. -/
def Token.NamesNone (t : Token) : Prop :=
  ∀ (table : ReferenceTable) (member : MemberRef), table.get t ≠ .ok member

theorem Token.namesNone_of_isIn {t : Token}
    (h : (t.isIn .memberRef || t.isIn .methodSpec) = false) : t.NamesNone := by
  intro table member hget
  unfold ReferenceTable.get at hget
  rw [h] at hget
  cases hget

namespace ReferenceTable

variable {refs refs' later later' : ReferenceTable} {t t' : Token}

/-- Two tokens name one member, each in its own table, or they are one token that never
names any. -/
inductive SameMember (refs refs' : ReferenceTable) : Token → Token → Prop where
  | named {t t' : Token} {member : MemberRef} : refs.get t = .ok member →
      refs'.get t' = .ok member → SameMember refs refs' t t'
  | unnamed {t : Token} : t.NamesNone → SameMember refs refs' t t

/-- The token names a member of the table, or none in any table; so no later table gives it
another meaning. -/
def Settles (refs : ReferenceTable) (t : Token) : Prop :=
  (∃ member, refs.get t = .ok member) ∨ t.NamesNone

theorem Settles.sameMember (h : refs.Settles t) (hlater : refs.GrowsTo later)
    (hlater' : refs.GrowsTo later') : SameMember later later' t t := by
  rcases h with ⟨member, hget⟩ | hnone
  · exact .named (hlater.get_eq_ok hget) (hlater'.get_eq_ok hget)
  · exact .unnamed hnone

namespace SameMember

theorem get_iff (h : SameMember refs refs' t t') {member : MemberRef} :
    refs'.get t' = .ok member ↔ refs.get t = .ok member := by
  cases h with
  | named hget hget' => rw [hget, hget']
  | unnamed hnone => exact iff_of_false (hnone refs' member) (hnone refs member)

theorem toOption_eq (h : SameMember refs refs' t t') :
    (refs'.get t').toOption = (refs.get t).toOption := by
  cases hget : refs.get t with
  | ok member => rw [h.get_iff.mpr hget]
  | error e =>
    cases hget' : refs'.get t' with
    | ok member => rw [h.get_iff.mp hget'] at hget; cases hget
    | error e' => rfl

theorem method_iff (h : SameMember refs refs' t t') {method : MethodRef} :
    refs'.method t' = .ok method ↔ refs.method t = .ok method := by
  rw [ReferenceTable.method_iff, ReferenceTable.method_iff, h.get_iff]

theorem field_iff (h : SameMember refs refs' t t') {field : FieldRef} :
    refs'.field t' = .ok field ↔ refs.field t = .ok field := by
  rw [ReferenceTable.field_iff, ReferenceTable.field_iff, h.get_iff]

theorem method_cases (h : SameMember refs refs' t t') :
    (∃ method, refs.method t = .ok method ∧ refs'.method t' = .ok method) ∨
      ∃ e e', refs.method t = .error e ∧ refs'.method t' = .error e' := by
  cases hm : refs.method t with
  | ok method => exact .inl ⟨method, rfl, h.method_iff.mpr hm⟩
  | error e =>
    cases hm' : refs'.method t' with
    | ok method => rw [h.method_iff.mp hm'] at hm; cases hm
    | error e' => exact .inr ⟨e, e', rfl, rfl⟩

theorem field_cases (h : SameMember refs refs' t t') :
    (∃ field, refs.field t = .ok field ∧ refs'.field t' = .ok field) ∨
      ∃ e e', refs.field t = .error e ∧ refs'.field t' = .error e' := by
  cases hf : refs.field t with
  | ok field => exact .inl ⟨field, rfl, h.field_iff.mpr hf⟩
  | error e =>
    cases hf' : refs'.field t' with
    | ok field => rw [h.field_iff.mp hf'] at hf; cases hf
    | error e' => exact .inr ⟨e, e', rfl, rfl⟩

theorem mono (h : SameMember refs refs' t t') (hlater : refs.GrowsTo later)
    (hlater' : refs'.GrowsTo later') : SameMember later later' t t' := by
  cases h with
  | named hget hget' => exact .named (hlater.get_eq_ok hget) (hlater'.get_eq_ok hget')
  | unnamed hnone => exact .unnamed hnone

end SameMember

end ReferenceTable

open ReferenceTable (SameMember)

variable {refs refs' later later' : ReferenceTable}

/-! ## Operands -/

/-- Equal operands, with tokens compared by the members they name. -/
inductive Operand.Alike (refs refs' : ReferenceTable) : Operand → Operand → Prop where
  | token {t t' : Token} : SameMember refs refs' t t' → Alike refs refs' (.token t) (.token t')
  | other {a : Operand} : a.token? = Option.none → Alike refs refs' a a

namespace Operand.Alike

variable {a a' : Operand}

theorem mono (h : Alike refs refs' a a') (hlater : refs.GrowsTo later)
    (hlater' : refs'.GrowsTo later') : Alike later later' a a' := by
  cases h with
  | token hsame => exact .token (hsame.mono hlater hlater')
  | other hnone => exact .other hnone

theorem fits_eq (h : Alike refs refs' a a') (kind : OperandKind) : a'.fits kind = a.fits kind := by
  cases h with
  | token => cases kind <;> rfl
  | other => rfl

theorem targets_eq (h : Alike refs refs' a a') : a'.targets = a.targets := by
  cases h <;> rfl

theorem eq_or_token (h : Alike refs refs' a a') : a' = a ∨
    ∃ t t', a = .token t ∧ a' = .token t' ∧ SameMember refs refs' t t' := by
  cases h with
  | token hsame => exact .inr ⟨_, _, rfl, rfl, hsame⟩
  | other => exact .inl rfl

end Operand.Alike

/-! ## Instructions -/

/-- Equal instructions, with tokens compared by the members they name. -/
structure Instruction.Alike (refs refs' : ReferenceTable) (i i' : Instruction) : Prop where
  op : i'.op = i.op
  offset : i'.offset = i.offset
  operand : i.operand.Alike refs refs' i'.operand

namespace Instruction.Alike

variable {i i' : Instruction}

theorem of_token?_none (h : i.token? = none) : Alike refs refs' i i := ⟨rfl, rfl, .other h⟩

theorem mono (h : Alike refs refs' i i') (hlater : refs.GrowsTo later)
    (hlater' : refs'.GrowsTo later') : Alike later later' i i' :=
  ⟨h.op, h.offset, h.operand.mono hlater hlater'⟩

theorem targets_eq (h : Alike refs refs' i i') : i'.targets = i.targets := h.operand.targets_eq

theorem fits_eq (h : Alike refs refs' i i') :
    i'.operand.fits i'.op.operandKind = i.operand.fits i.op.operandKind := by
  rw [h.op, h.operand.fits_eq]

theorem size_eq (h : Alike refs refs' i i') : i'.size = i.size := by
  obtain ⟨op, operand, offset⟩ := i
  obtain ⟨op', operand', offset'⟩ := i'
  obtain ⟨rfl, rfl, hoperand⟩ := h
  unfold size
  cases hoperand with
  | token => cases op'.operandKind.size? <;> rfl
  | other => rfl

theorem token?_cases (h : Alike refs refs' i i') : (i.token? = none ∧ i'.token? = none) ∨
    ∃ t t', i.token? = some t ∧ i'.token? = some t' ∧ SameMember refs refs' t t' := by
  obtain ⟨-, -, hoperand⟩ := h
  unfold token?
  cases hoperand' : hoperand.eq_or_token with
  | inr htoken =>
    obtain ⟨t, t', ha, ha', hsame⟩ := htoken
    exact .inr ⟨t, t', by rw [ha]; rfl, by rw [ha']; rfl, hsame⟩
  | inl heq =>
    rw [heq]
    cases htoken : i.operand.token? with
    | none => exact .inl ⟨rfl, rfl⟩
    | some t =>
      have ht : i.operand = .token t := token?_eq_some.mp htoken
      rw [heq, ht] at hoperand
      cases hoperand with
      | token hsame => exact .inr ⟨t, t, rfl, rfl, hsame⟩
      | other hnone => cases hnone

theorem recode {j j' : Instruction} (h : Alike refs refs' i i') (hj : Alike refs refs' j j') :
    Alike refs refs' (i.recode j.op j.operand) (i'.recode j'.op j'.operand) :=
  ⟨hj.op, h.offset, hj.operand⟩

theorem withOffset (h : Alike refs refs' i i') (offset : UInt32) :
    Alike refs refs' { i with offset } { i' with offset } := ⟨h.op, rfl, h.operand⟩

theorem expanded (h : Alike refs refs' i i') : Alike refs refs' i.expanded i'.expanded := by
  obtain ⟨op, operand, offset⟩ := i
  obtain ⟨op', operand', offset'⟩ := i'
  obtain ⟨rfl, rfl, hoperand⟩ := h
  cases hoperand with
  | token hsame =>
    cases op' <;> first
      | exact ⟨rfl, rfl, .token hsame⟩
      | exact ⟨rfl, rfl, .other rfl⟩
  | other hnone =>
    refine of_token?_none ?_
    cases hform : expandedForm? ⟨op', operand, offset'⟩ with
    | none => rw [expanded_of_none hform]; exact hnone
    | some form =>
      rw [expanded_of_some hform]
      exact (widens_of_expandedForm? hform).token?_eq_none hnone

theorem compacted (h : Alike refs refs' i i') : Alike refs refs' i.compacted i'.compacted := by
  obtain ⟨op, operand, offset⟩ := i
  obtain ⟨op', operand', offset'⟩ := i'
  obtain ⟨rfl, rfl, hoperand⟩ := h
  cases hoperand with
  | token hsame =>
    cases op' <;> exact ⟨rfl, rfl, .token hsame⟩
  | other hnone =>
    refine of_token?_none ?_
    unfold Instruction.compacted
    split
    · rename_i op operand' hform
      obtain ⟨hback, hfits, -⟩ := compactedForm?_eq_some hform
      exact ((widens_of_expandedForm? (hback offset')).token?_eq hfits).symm.trans hnone
    · exact hnone

theorem calledMethod_eq_ok (h : Alike refs refs' i i') {method : MethodRef}
    (hm : i.calledMethod refs = .ok method) : i'.calledMethod refs' = .ok method := by
  unfold calledMethod at hm ⊢
  rcases h.token?_cases with ⟨hnone, -⟩ | ⟨t, t', ht, ht', hsame⟩
  · rw [hnone] at hm
    cases hm
  · rw [ht, Option.map_some] at hm
    rw [ht', Option.map_some]
    cases hfound : refs.method t with
    | error e => rw [hfound] at hm; cases hm
    | ok found =>
      rw [hfound] at hm
      cases hm
      rw [hsame.method_iff.mpr hfound]

theorem stackEffect_eq_ok (h : Alike refs refs' i i') {returnType : TypeSig}
    {effect : Nat × Nat} (he : i.stackEffect refs returnType = .ok effect) :
    i'.stackEffect refs' returnType = .ok effect :=
  stackEffect_of_calledMethod h.op (fun _ => h.calledMethod_eq_ok) he

end Instruction.Alike

/-! ## Code -/

/-- The same handles in the same order, with equal instructions but for tokens. -/
structure InstructionList.Alike (refs refs' : ReferenceTable) (l l' : InstructionList) :
    Prop where
  ids : l'.ids = l.ids
  slots : l'.slots.size = l.slots.size
  get? : ∀ id i, l.get? id = some i → ∃ i', l'.get? id = some i' ∧ i.Alike refs refs' i'

namespace InstructionList.Alike

variable {l l' : InstructionList}

theorem mono (h : Alike refs refs' l l') (hlater : refs.GrowsTo later)
    (hlater' : refs'.GrowsTo later') : Alike later later' l l' := by
  refine ⟨h.ids, h.slots, fun id i hi => ?_⟩
  obtain ⟨i', hi', halike⟩ := h.get? id i hi
  exact ⟨i', hi', halike.mono hlater hlater'⟩

/-- Code is like itself if its tokens mean the same in both tables. -/
theorem refl (h : ∀ id i t, l.get? id = some i → i.token? = some t → SameMember refs refs' t t) :
    Alike refs refs' l l := by
  refine ⟨rfl, rfl, fun id i hi => ⟨i, hi, rfl, rfl, ?_⟩⟩
  cases htoken : i.token? with
  | none => exact .other htoken
  | some t => rw [Instruction.token?_eq_some.mp htoken]; exact .token (h id i t hi htoken)

theorem contains_eq (h : Alike refs refs' l l') (id : InstrId) :
    l'.contains id = l.contains id := by
  rw [Bool.eq_iff_iff, ← mem_ids, ← mem_ids, h.ids]

theorem get?_cases (h : Alike refs refs' l l') (id : InstrId) :
    (l.get? id = none ∧ l'.get? id = none) ∨
      ∃ i i', l.get? id = some i ∧ l'.get? id = some i' ∧ i.Alike refs refs' i' := by
  cases hi : l.get? id with
  | none =>
    refine .inl ⟨rfl, get?_eq_none fun hmem => ?_⟩
    obtain ⟨i, hi'⟩ := get?_of_mem (h.ids ▸ hmem)
    rw [hi] at hi'
    cases hi'
  | some i =>
    obtain ⟨i', hi', halike⟩ := h.get? id i hi
    exact .inr ⟨i, i', rfl, hi', halike⟩

theorem next?_eq (h : Alike refs refs' l l') (id : InstrId) : l'.next? id = l.next? id :=
  next?_congr h.ids id

/-- What can be told of each instruction without its token comes out the same. -/
theorem filterMap_eq {α : Type} (h : Alike refs refs' l l')
    {f f' : InstrId × Instruction → Option α}
    (hf : ∀ id i i', i.Alike refs refs' i' → f' (id, i') = f (id, i)) :
    l'.entries.filterMap f' = l.entries.filterMap f := by
  unfold entries
  rw [h.ids, List.filterMap_filterMap, List.filterMap_filterMap]
  congr 1
  funext id
  rcases h.get?_cases id with ⟨hi, hi'⟩ | ⟨i, i', hi, hi', halike⟩
  · rw [hi, hi']; rfl
  · rw [hi, hi']
    exact hf id i i' halike

theorem modify (h : Alike refs refs' l l') (id : InstrId) {f f' : Instruction → Instruction}
    (hf : ∀ i i', i.Alike refs refs' i' → (f i).Alike refs refs' (f' i')) :
    Alike refs refs' (l.modify id f) (l'.modify id f') := by
  refine ⟨by rw [ids_modify, ids_modify, h.ids], by rw [slots_modify, slots_modify, h.slots], ?_⟩
  intro x j hj
  rw [get?_modify] at hj ⊢
  by_cases hx : x = id
  · rw [if_pos hx] at hj ⊢
    obtain ⟨i, hi, rfl⟩ := Option.map_eq_some_iff.mp hj
    obtain ⟨i', hi', halike⟩ := h.get? x i hi
    exact ⟨f' i', by rw [hi']; rfl, hf i i' halike⟩
  · rw [if_neg hx] at hj ⊢
    exact h.get? x j hj

theorem of_inserts {m m' : InstructionList} {i i' : Instruction} {front back : List InstrId}
    (h : Alike refs refs' l l') (hi : i.Alike refs refs' i') (hl : l.Inserts m i front back)
    (hl' : l'.Inserts m' i' front back) : Alike refs refs' m m' := by
  refine ⟨by rw [hl.after, hl'.after, h.slots], ?_, ?_⟩
  · rw [hl.slots, hl'.slots, Array.size_push, Array.size_push, h.slots]
  · intro x j hj
    have hx : x = .ofSlot l.slots.size ∨ x ∈ l.ids := by
      have hmem := mem_ids_of_get? hj
      rw [hl.after, List.mem_append, List.mem_cons] at hmem
      rw [hl.before, List.mem_append]
      exact or_left_comm.mp hmem
    rcases hx with rfl | hx
    · rw [hl.get?_new] at hj
      cases hj
      exact ⟨i', h.slots ▸ hl'.get?_new, hi⟩
    · rw [hl.get?_old hx] at hj
      rw [hl'.get?_old (h.ids ▸ hx)]
      exact h.get? x j hj

theorem insertAfter {m : InstructionList} {anchor new : InstrId} {i i' : Instruction}
    (h : Alike refs refs' l l') (hi : i.Alike refs refs' i')
    (hinsert : InstructionList.insertAfter anchor i l = .ok new m) :
    ∃ m', InstructionList.insertAfter anchor i' l' = .ok new m' ∧ Alike refs refs' m m' := by
  have hanchor : anchor ∈ l.ids := by
    refine Classical.byContradiction fun hnot => ?_
    rw [insertAfter_of_not_mem i hnot] at hinsert
    cases hinsert
  obtain ⟨front, back, hsplit⟩ := List.append_of_mem hanchor
  obtain ⟨rfl, hinserts⟩ := insertAfter_eq_ok hinsert hsplit
  have hroom : l'.slots.size < UInt32.size := h.slots ▸ hinserts.room
  obtain ⟨new', m', hm'⟩ := exists_insertAfter i' (h.ids ▸ hanchor) hroom
  obtain ⟨rfl, hinserts'⟩ := insertAfter_eq_ok hm' (h.ids.trans hsplit)
  exact ⟨m', by rw [hm', h.slots], h.of_inserts hi hinserts hinserts'⟩

end InstructionList.Alike

/-! ## Bodies -/

/-- Equal bodies, with tokens compared by the members they name. -/
structure MethodBody.Alike (refs refs' : ReferenceTable) (b b' : MethodBody) : Prop where
  code : b.code.Alike refs refs' b'.code
  locals : b'.locals = b.locals
  handlers : b'.handlers = b.handlers
  maxStack : b'.maxStack = b.maxStack
  initLocals : b'.initLocals = b.initLocals
  codeSize : b'.codeSize = b.codeSize

namespace MethodBody.Alike

variable {b b' : MethodBody}

theorem mono (h : Alike refs refs' b b') (hlater : refs.GrowsTo later)
    (hlater' : refs'.GrowsTo later') : Alike later later' b b' :=
  { h with code := h.code.mono hlater hlater' }

theorem refl
    (h : ∀ id i t, b.code.get? id = some i → i.token? = some t → SameMember refs refs' t t) :
    Alike refs refs' b b :=
  ⟨.refl h, rfl, rfl, rfl, rfl, rfl⟩

theorem withCode {code code' : InstructionList} (h : Alike refs refs' b b')
    (hcode : code.Alike refs refs' code') :
    Alike refs refs' { b with code } { b' with code := code' } :=
  { h with code := hcode }

theorem referenced_eq (h : Alike refs refs' b b') : b'.referenced = b.referenced := by
  have htargets : b'.code.instructions.map Instruction.targets =
      b.code.instructions.map Instruction.targets := by
    rw [← InstructionList.map_snd_entries, ← InstructionList.map_snd_entries, List.map_map,
      List.map_map, ← List.filterMap_eq_map]
    exact h.code.filterMap_eq fun _ _ _ halike => congrArg some halike.targets_eq
  unfold referenced
  rw [h.handlers, List.flatMap_def, htargets, ← List.flatMap_def]

theorem contains_eq (h : Alike refs refs' b b') (id : InstrId) :
    b'.code.contains id = b.code.contains id := h.code.contains_eq id

theorem modifyAt (h : Alike refs refs' b b') (id : InstrId) {f f' : Instruction → Instruction}
    (hf : ∀ i i', i.Alike refs refs' i' → (f i).Alike refs refs' (f' i')) :
    Alike refs refs' (b.modifyAt id f) (b'.modifyAt id f') :=
  h.withCode (h.code.modify id hf)

theorem foldl_modifyAt {f : Instruction → Instruction}
    (hf : ∀ i i', i.Alike refs refs' i' → (f i).Alike refs refs' (f i')) :
    ∀ (ids : List InstrId) {b b' : MethodBody}, Alike refs refs' b b' →
      Alike refs refs' (ids.foldl (fun b id => b.modifyAt id f) b)
        (ids.foldl (fun b id => b.modifyAt id f) b')
  | [], _, _, h => h
  | id :: rest, _, _, h => foldl_modifyAt hf rest (h.modifyAt id hf)

end MethodBody.Alike

end CilWeave
