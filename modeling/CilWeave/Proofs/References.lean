import CilWeave.Proofs.StackDepth.Exact

/-
What a growing table of references leaves as it was.

Rows are only ever put behind the others. So a token that names a member goes on
naming it, and a member that is imported is named by its token as long as the rows fit
into tokens (`ReferenceTable.get_intern`). An instruction whose effect on the stack was
known keeps it: what the stack analysis accepted, it accepts with any later table, with
the same answer (`MethodBody.computeMaxStack_of_growsTo`).
-/

namespace CilWeave

/-! ## Tokens of rows -/

namespace Token

theorem toNat_ofRow (table : Table) (row : UInt32) :
    (ofRow table row).value.toNat = table.byte.toNat * 0x1000000 + row.toNat % 0x1000000 := by
  have hrow : (row &&& 0x00FFFFFF).toNat = row.toNat % 0x1000000 := by
    rw [UInt32.toNat_and]
    exact Nat.and_two_pow_sub_one_eq_mod row.toNat 24
  have hbyte : (table.byte.toUInt32 <<< 24).toNat = table.byte.toNat <<< 24 := by
    cases table <;> rfl
  have hside : table.byte.toNat <<< 24 + row.toNat % 0x1000000 =
      table.byte.toNat <<< 24 ||| row.toNat % 0x1000000 :=
    Nat.shiftLeft_add_eq_or_of_lt (Nat.mod_lt row.toNat (by decide)) table.byte.toNat
  unfold ofRow
  rw [UInt32.toNat_or, hrow, hbyte, ← hside, Nat.shiftLeft_eq]

theorem isIn_ofRow (table : Table) (row : UInt32) : (ofRow table row).isIn table = true := by
  have hbyte : (ofRow table row).tableByte = table.byte := by
    apply UInt8.toNat_inj.mp
    have hlt := UInt8.toNat_lt table.byte
    have hshift : ((ofRow table row).value >>> 24).toNat =
        (ofRow table row).value.toNat / 0x1000000 := by
      rw [UInt32.toNat_shiftRight]
      exact Nat.shiftRight_eq_div_pow _ 24
    unfold tableByte
    rw [UInt32.toNat_toUInt8, hshift, toNat_ofRow]
    omega
  unfold isIn
  rw [hbyte]
  exact beq_self_eq_true _

theorem index?_ofIndex {table : Table} {n : Nat} (h : n + 1 < 0x1000000) :
    (ofIndex table n).index? = some n := by
  have hrow : (ofIndex table n).row.toNat = n + 1 := by
    have hmask : (ofIndex table n).row.toNat =
        (ofRow table (UInt32.ofNat n + 1)).value.toNat % 0x1000000 := by
      unfold row ofIndex
      rw [UInt32.toNat_and]
      exact Nat.and_two_pow_sub_one_eq_mod (ofRow table (UInt32.ofNat n + 1)).value.toNat 24
    have hnumber : (UInt32.ofNat n + 1).toNat = n + 1 := by
      rw [UInt32.toNat_add, UInt32.toNat_ofNat']
      show (n % 4294967296 + 1) % 4294967296 = n + 1
      omega
    rw [hmask, toNat_ofRow, hnumber]
    omega
  have hzero : (ofIndex table n).row ≠ 0 := by
    intro hzero
    rw [hzero] at hrow
    cases hrow
  unfold index?
  rw [if_neg hzero, hrow]
  rfl

end Token

theorem MemberRef.table_isImported (member : MemberRef) (n : Nat) :
    ((Token.ofIndex member.table n).isIn .memberRef ||
      (Token.ofIndex member.table n).isIn .methodSpec) = true := by
  have hin : (Token.ofIndex member.table n).isIn member.table = true := Token.isIn_ofRow _ _
  have htable : member.table = .memberRef ∨ member.table = .methodSpec := by
    unfold MemberRef.table
    split
    · split
      · exact .inr rfl
      · exact .inl rfl
    · exact .inl rfl
  rcases htable with h | h
  · rw [h] at hin ⊢
    rw [hin, Bool.true_or]
  · rw [h] at hin ⊢
    rw [hin, Bool.or_true]

namespace Instruction

theorem token?_eq_some {i : Instruction} {t : Token} :
    i.token? = some t ↔ i.operand = .token t := by
  unfold token? Operand.token?
  constructor
  · intro h
    split at h
    · rename_i heq
      cases h
      exact heq
    · cases h
  · intro h
    rw [h]

theorem calledMethod_of_method {i : Instruction} {t : Token} {refs : ReferenceTable}
    {method : MethodRef} (h : i.operand = .token t) (hm : refs.method t = .ok method) :
    i.calledMethod refs = .ok method := by
  unfold calledMethod
  rw [token?_eq_some.mpr h, Option.map_some, hm]

theorem stackEffect_of_calledMethod {i i' : Instruction} {refs refs' : ReferenceTable}
    {returnType : TypeSig} {effect : Nat × Nat} (hop : i'.op = i.op)
    (hcalled : ∀ method, i.calledMethod refs = .ok method → i'.calledMethod refs' = .ok method)
    (he : i.stackEffect refs returnType = .ok effect) :
    i'.stackEffect refs' returnType = .ok effect := by
  have called : ∀ {f : MethodRef → Nat × Nat}, (i.calledMethod refs).map f = .ok effect →
      (i'.calledMethod refs').map f = .ok effect := by
    intro f hf
    cases hm : i.calledMethod refs with
    | error e => rw [hm] at hf; cases hf
    | ok method =>
      rw [hm] at hf
      rw [hcalled method hm]
      exact hf
  unfold stackEffect at he ⊢
  rw [hop]
  cases hs : i.op.info.stack with
  | fixed pops pushes => rw [hs] at he; exact he
  | call => rw [hs] at he; exact called he
  | newObj => rw [hs] at he; exact called he
  | «return» => rw [hs] at he; exact he
  | unsupported => rw [hs] at he; cases he

end Instruction

/-! ## Tables that grow -/

namespace ReferenceTable

/-- The rows of `table` are the first rows of `later`. -/
def GrowsTo (table later : ReferenceTable) : Prop := table.toList <+: later.toList

theorem GrowsTo.refl (table : ReferenceTable) : table.GrowsTo table := List.prefix_refl _

theorem GrowsTo.trans {table later last : ReferenceTable} (h : table.GrowsTo later)
    (h' : later.GrowsTo last) : table.GrowsTo last := List.IsPrefix.trans h h'

/-- A member is imported once: where it is not among the references, it becomes the last. -/
theorem intern_cases (table : ReferenceTable) (member : MemberRef) :
    member ∈ table.toList ∧ (table.intern member).2 = table ∨
      member ∉ table.toList ∧ (table.intern member).2.toList = table.toList ++ [member] := by
  cases hfind : table.find? member with
  | some token =>
    obtain ⟨n, hn, -⟩ := Option.map_eq_some_iff.mp hfind
    obtain ⟨hlt, hmember, -⟩ := Array.findIdx?_eq_some_iff_getElem.mp hn
    refine .inl ⟨?_, congrArg Prod.snd (intern_of_some hfind)⟩
    rw [← eq_of_beq hmember]
    exact Array.mem_toList_iff.mpr (Array.getElem_mem hlt)
  | none =>
    have hnone := Array.findIdx?_eq_none_iff.mp (Option.map_eq_none_iff.mp hfind)
    rw [intern_of_none hfind]
    refine .inr ⟨fun hmem => ?_, Array.toList_push⟩
    have hne := hnone member (Array.mem_toList_iff.mp hmem)
    rw [beq_self_eq_true] at hne
    cases hne

theorem nodup_intern {table : ReferenceTable} (h : table.toList.Nodup) (member : MemberRef) :
    (table.intern member).2.toList.Nodup := by
  rcases table.intern_cases member with ⟨-, heq⟩ | ⟨hfresh, heq⟩
  · rw [heq]
    exact h
  · rw [heq, List.nodup_append]
    refine ⟨h, by simp, fun x hx y hy hxy => hfresh ?_⟩
    rwa [← List.mem_singleton.mp hy, ← hxy]

theorem growsTo_intern (table : ReferenceTable) (member : MemberRef) :
    table.GrowsTo (table.intern member).2 := by
  rcases table.intern_cases member with ⟨-, heq⟩ | ⟨-, heq⟩
  · rw [heq]
    exact .refl table
  · unfold GrowsTo
    rw [heq]
    exact List.prefix_append _ _

theorem method_iff {table : ReferenceTable} {token : Token} {method : MethodRef} :
    table.method token = .ok method ↔ table.get token = .ok (.method method) := by
  unfold ReferenceTable.method
  split <;> rename_i hget <;> rw [hget] <;> simp

theorem field_iff {table : ReferenceTable} {token : Token} {field : FieldRef} :
    table.field token = .ok field ↔ table.get token = .ok (.field field) := by
  unfold ReferenceTable.field
  split <;> rename_i hget <;> rw [hget] <;> simp

/-- A token names a member if it is one for references and the member stands in its row. -/
theorem get_iff {table : ReferenceTable} {token : Token} {member : MemberRef} :
    table.get token = .ok member ↔
      (token.isIn .memberRef || token.isIn .methodSpec) = true ∧
        ∃ n, token.index? = some n ∧ table.entries[n]? = some member := by
  simp only [get]
  constructor
  · intro h
    split at h
    · rename_i htable
      split at h
      · rename_i found hfound
        cases h
        exact ⟨htable, Option.bind_eq_some_iff.mp hfound⟩
      · cases h
    · cases h
  · rintro ⟨htable, n, hindex, hn⟩
    rw [if_pos htable, hindex, Option.bind_some, hn]

theorem mem_of_get_eq_ok {table : ReferenceTable} {token : Token} {member : MemberRef}
    (h : table.get token = .ok member) : member ∈ table.toList := by
  obtain ⟨-, n, -, hn⟩ := get_iff.mp h
  exact Array.mem_toList_iff.mpr (Array.mem_of_getElem? hn)

theorem mem_of_field_eq_ok {table : ReferenceTable} {token : Token} {field : FieldRef}
    (h : table.field token = .ok field) : .field field ∈ table.toList :=
  mem_of_get_eq_ok (field_iff.mp h)

/-- A token has 24 bits for the row, and every row of the table fits into them. -/
def FitsTokens (table : ReferenceTable) : Prop := table.size < 0x1000000

theorem GrowsTo.fitsTokens {table later : ReferenceTable} (h : table.GrowsTo later)
    (hfits : later.FitsTokens) : table.FitsTokens := by
  have hlength := h.length_le
  unfold toList at hlength
  rw [Array.length_toList, Array.length_toList] at hlength
  exact Nat.lt_of_le_of_lt hlength hfits

theorem get_ofIndex {table : ReferenceTable} {n : Nat} {member : MemberRef}
    (hn : table.entries[n]? = some member) (hlt : n + 1 < 0x1000000) :
    table.get (Token.ofIndex member.table n) = .ok member := by
  exact get_iff.mpr ⟨member.table_isImported _, n, Token.index?_ofIndex hlt, hn⟩

theorem get_intern {table : ReferenceTable} {member : MemberRef}
    (hfits : (table.intern member).2.FitsTokens) :
    (table.intern member).2.get (table.intern member).1 = .ok member := by
  cases hfind : table.find? member with
  -- The row that was found holds the member itself.
  | some token =>
    rw [intern_of_some hfind] at hfits ⊢
    obtain ⟨n, hn, rfl⟩ := Option.map_eq_some_iff.mp hfind
    obtain ⟨hlt, hmember, -⟩ := Array.findIdx?_eq_some_iff_getElem.mp hn
    have hentry : table.entries[n]? = some member := by
      rw [Array.getElem?_eq_getElem hlt, eq_of_beq hmember]
    exact get_ofIndex hentry (Nat.lt_of_le_of_lt hlt hfits)
  | none =>
    rw [intern_of_none hfind] at hfits ⊢
    refine get_ofIndex Array.getElem?_push_size ?_
    unfold FitsTokens size at hfits
    rwa [Array.size_push] at hfits

namespace GrowsTo

variable {table later : ReferenceTable}

theorem getElem?_eq (h : table.GrowsTo later) {n : Nat} {member : MemberRef}
    (hn : table.entries[n]? = some member) : later.entries[n]? = some member := by
  obtain ⟨rest, hrest⟩ := h
  unfold toList at hrest
  rw [← Array.getElem?_toList] at hn ⊢
  rw [← hrest]
  exact List.getElem?_append_left (List.getElem?_eq_some_iff.mp hn).1 ▸ hn

theorem get_eq_ok (h : table.GrowsTo later) {token : Token} {member : MemberRef}
    (hget : table.get token = .ok member) : later.get token = .ok member := by
  obtain ⟨htable, n, hindex, hn⟩ := get_iff.mp hget
  exact get_iff.mpr ⟨htable, n, hindex, h.getElem?_eq hn⟩

theorem method_eq_ok (h : table.GrowsTo later) {token : Token} {method : MethodRef}
    (hm : table.method token = .ok method) : later.method token = .ok method :=
  method_iff.mpr (h.get_eq_ok (method_iff.mp hm))

theorem field_eq_ok (h : table.GrowsTo later) {token : Token} {field : FieldRef}
    (hf : table.field token = .ok field) : later.field token = .ok field :=
  field_iff.mpr (h.get_eq_ok (field_iff.mp hf))

theorem calledMethod_eq_ok (h : table.GrowsTo later) {i : Instruction} {method : MethodRef}
    (hm : i.calledMethod table = .ok method) : i.calledMethod later = .ok method := by
  unfold Instruction.calledMethod at hm ⊢
  cases ht : i.token? with
  | none => rw [ht] at hm; cases hm
  | some token =>
    rw [ht] at hm
    simp only [Option.map_some] at hm ⊢
    cases hfound : table.method token with
    | error e => rw [hfound] at hm; cases hm
    | ok found =>
      rw [hfound] at hm
      cases hm
      rw [h.method_eq_ok hfound]

theorem stackEffect_eq_ok (h : table.GrowsTo later) {i : Instruction} {returnType : TypeSig}
    {effect : Nat × Nat} (he : i.stackEffect table returnType = .ok effect) :
    i.stackEffect later returnType = .ok effect :=
  Instruction.stackEffect_of_calledMethod rfl (fun _ => h.calledMethod_eq_ok) he

end GrowsTo

end ReferenceTable

namespace MethodBody

theorem computeMaxStack_of_growsTo {b : MethodBody} {refs later : ReferenceTable}
    {returnType : TypeSig} {m : UInt16} (h : refs.GrowsTo later)
    (hm : b.computeMaxStack refs returnType = .ok m) :
    b.computeMaxStack later returnType = .ok m := by
  by_cases hempty : b.code.ids = []
  · have hnone : b.code.isEmpty = true := InstructionList.isEmpty_iff.mpr hempty
    unfold computeMaxStack at hm ⊢
    rw [if_pos hnone] at hm ⊢
    exact hm
  · refine computeMaxStack_of_runsAlike ⟨rfl, fun _ => Iff.rfl, ?_⟩ hempty hm
    intro id i hi
    exact ⟨i, hi, rfl, fun _ => Iff.rfl, fun _ he => h.stackEffect_eq_ok he⟩

end MethodBody

end CilWeave
