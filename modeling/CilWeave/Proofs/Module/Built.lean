import CilWeave.Module.Basic
import CilWeave.Proofs.References

/-
Modules that were made with the `add` functions, and how their tables hang together.

`Module.Built` says how a module can come about; bodies, flags and names are whatever they
were given. `Module.Linked` is what that guarantees: every definition stands in the row of
its token, a type owns each of its methods and nested types once, and what it owns names it
as its owner. So no definition has two owners (`Module.Built.linked`).
-/

namespace CilWeave

/-! ## Tokens of definitions -/

namespace Token

theorem indexIn?_ofIndex {table : Table} {n : Nat} (h : n + 1 < 0x1000000) :
    (ofIndex table n).indexIn? table = some n := by
  unfold indexIn?
  rw [if_pos (show (ofIndex table n).isIn table = true from isIn_ofRow table _), index?_ofIndex h]

theorem toNat_value (t : Token) : t.value.toNat = t.tableByte.toNat * 0x1000000 + t.row.toNat := by
  have hrow : t.row.toNat = t.value.toNat % 0x1000000 := by
    unfold row
    rw [UInt32.toNat_and]
    exact Nat.and_two_pow_sub_one_eq_mod t.value.toNat 24
  have hbyte : t.tableByte.toNat = t.value.toNat / 0x1000000 := by
    have hshift : (t.value >>> 24).toNat = t.value.toNat / 0x1000000 := by
      rw [UInt32.toNat_shiftRight]
      exact Nat.shiftRight_eq_div_pow _ 24
    have hlt := t.value.toNat_lt
    unfold tableByte
    rw [UInt32.toNat_toUInt8, hshift]
    omega
  omega

theorem indexIn?_eq_some {t : Token} {table : Table} {n : Nat} (h : t.indexIn? table = some n) :
    t.tableByte = table.byte ∧ t.row.toNat = n + 1 := by
  unfold indexIn? index? at h
  split at h
  · rename_i hin
    split at h
    · cases h
    · rename_i hrow
      cases h
      have hpos : t.row.toNat ≠ 0 := fun hzero => hrow (UInt32.toNat_inj.mp hzero)
      exact ⟨eq_of_beq hin, by omega⟩
  · cases h

theorem indexIn?_inj {t t' : Token} {table : Table} {n : Nat} (h : t.indexIn? table = some n)
    (h' : t'.indexIn? table = some n) : t = t' := by
  obtain ⟨hbyte, hrow⟩ := indexIn?_eq_some h
  obtain ⟨hbyte', hrow'⟩ := indexIn?_eq_some h'
  have hvalue : t.value = t'.value := by
    apply UInt32.toNat_inj.mp
    rw [toNat_value t, toNat_value t', hbyte, hrow, hbyte', hrow']
  cases t
  cases t'
  cases hvalue
  rfl

theorem ofIndex_inj {table : Table} {n k : Nat} (hn : n + 1 < 0x1000000) (hk : k + 1 < 0x1000000)
    (h : ofIndex table n = ofIndex table k) : n = k := by
  have hindex : (ofIndex table n).indexIn? table = some n := indexIn?_ofIndex hn
  rw [h, indexIn?_ofIndex hk] at hindex
  exact (Option.some.inj hindex).symm

end Token

namespace Module

/-- The module was made with the `add` functions. -/
inductive Built : Module → Prop where
  | empty (name : String) : Built (.empty name)
  | addType {m : Module} (nameSpace name : String) (flags : TypeFlags) : Built m →
      Built (m.addType nameSpace name flags).2
  | addNestedType {m m' : Module} {t enclosing : Token} {name : String} {flags : TypeFlags} :
      Built m → addNestedType enclosing name flags m = .ok t m' → Built m'
  | addField {m m' : Module} {t owner : Token} {name : String} {fieldType : TypeSig}
      {flags : FieldFlags} {customAttributes : List String} : Built m →
      addField owner name fieldType flags customAttributes m = .ok t m' → Built m'
  | addMethod {m m' : Module} {t owner : Token} {name : String} {flags : MethodFlags}
      {signature : MethodSig} {body : Option MethodBody} : Built m →
      addMethod owner name flags signature body m = .ok t m' → Built m'
  | importMember {m : Module} (member : MemberRef) : Built m → Built (m.importMember member).2

/-- The tables hold no more rows than tokens can tell apart. -/
structure FitsTokens (m : Module) : Prop where
  types : m.types.size < 0x1000000
  methods : m.methods.size < 0x1000000
  references : m.references.FitsTokens

variable {m m' : Module} {t owner : Token} {name : String}

/-! ## Looking definitions up -/

theorem lt_size_of_getElem? {α : Type} {xs : Array α} {n : Nat} {a : α} (h : xs[n]? = some a) :
    n < xs.size := (Array.getElem?_eq_some_iff.mp h).1

theorem typeDef?_eq_some {type : TypeDef} : m.typeDef? t = some type ↔
    ∃ n, t.indexIn? .typeDef = some n ∧ m.types[n]? = some type := by
  unfold typeDef?
  exact Option.bind_eq_some_iff

theorem methodDef?_eq_some {method : MethodDef} : m.methodDef? t = some method ↔
    ∃ n, t.indexIn? .methodDef = some n ∧ m.methods[n]? = some method := by
  unfold methodDef?
  exact Option.bind_eq_some_iff

/-- What relates the rows of two modules relates what their tokens name. -/
theorem rel_methodDef? {R : MethodDef → MethodDef → Prop}
    (hsize : m'.methods.size = m.methods.size)
    (hrows : ∀ (n : Nat) (method : MethodDef), m.methods[n]? = some method →
      ∃ method', m'.methods[n]? = some method' ∧ R method method') (t : Token) :
    Option.Rel R (m.methodDef? t) (m'.methodDef? t) := by
  unfold methodDef?
  cases t.indexIn? .methodDef with
  | none => exact .none
  | some n =>
    show Option.Rel R m.methods[n]? m'.methods[n]?
    cases hn : m.methods[n]? with
    | none =>
      rw [Array.getElem?_eq_none (hsize ▸ Array.getElem?_eq_none_iff.mp hn)]
      exact .none
    | some method =>
      obtain ⟨method', hn', hr⟩ := hrows n method hn
      rw [hn']
      exact .some hr

theorem typeDef?_ofIndex {n : Nat} {type : TypeDef} (hfits : m.types.size < 0x1000000)
    (hn : m.types[n]? = some type) : m.typeDef? (.ofIndex .typeDef n) = some type := by
  have hlt := lt_size_of_getElem? hn
  exact typeDef?_eq_some.mpr ⟨n, Token.indexIn?_ofIndex (by omega), hn⟩

theorem methodDef?_ofIndex {n : Nat} {method : MethodDef} (hfits : m.methods.size < 0x1000000)
    (hn : m.methods[n]? = some method) : m.methodDef? (.ofIndex .methodDef n) = some method := by
  have hlt := lt_size_of_getElem? hn
  exact methodDef?_eq_some.mpr ⟨n, Token.indexIn?_ofIndex (by omega), hn⟩

/-! ## Adding -/

theorem modifyType_eq_ok {f : TypeDef → TypeDef} (h : modifyType owner f m = .ok () m') :
    ∃ n, owner.indexIn? .typeDef = some n ∧ n < m.types.size ∧
      m' = { m with types := m.types.modify n f } := by
  unfold modifyType at h
  split at h
  · rename_i n hn
    split at h
    · rename_i hlt
      cases h
      exact ⟨n, hn, hlt, rfl⟩
    · cases h
  · cases h

theorem modifyType_eq_error_iff {f : TypeDef → TypeDef} {e : Error} :
    modifyType owner f m = .error e m' ↔
      m.typeDef? owner = none ∧ e = .typeNotFound owner.text ∧ m' = m := by
  unfold typeDef? modifyType
  cases owner.indexIn? .typeDef with
  | none => simp [eq_comm]
  | some n => by_cases hlt : n < m.types.size <;> simp [hlt, eq_comm]

section Owner

variable {α : Type} {f : TypeDef → TypeDef} {next : Unit → Edit Module α}

theorem modifyType_bind_eq_ok {a : α} (h : (modifyType owner f >>= next) m = .ok a m') :
    ∃ n, owner.indexIn? .typeDef = some n ∧ n < m.types.size ∧
      next () { m with types := m.types.modify n f } = .ok a m' := by
  obtain ⟨_, s, hmodify, h⟩ := Edit.bind_eq_ok h
  obtain ⟨n, hn, hlt, rfl⟩ := modifyType_eq_ok hmodify
  exact ⟨n, hn, hlt, h⟩

theorem modifyType_bind_eq_error_iff (hnext : ∀ m, ∃ a m', next () m = .ok a m') {e : Error} :
    (modifyType owner f >>= next) m = .error e m' ↔
      m.typeDef? owner = none ∧ e = .typeNotFound owner.text ∧ m' = m := by
  cases hmodify : modifyType owner f m with
  | error fault left =>
    obtain ⟨hnone, rfl, rfl⟩ := modifyType_eq_error_iff.mp hmodify
    rw [Edit.bind_of_error hmodify]
    constructor
    · rintro ⟨⟩
      exact ⟨hnone, rfl, rfl⟩
    · rintro ⟨-, rfl, rfl⟩
      rfl
  | ok _ changed =>
    obtain ⟨a, last, hlast⟩ := hnext changed
    rw [Edit.bind_of_ok hmodify, hlast]
    refine ⟨nofun, fun h => ?_⟩
    rw [modifyType_eq_error_iff.mpr h] at hmodify
    cases hmodify

end Owner

theorem addNestedType_eq_ok {flags : TypeFlags}
    (h : addNestedType owner name flags m = .ok t m') :
    ∃ n inner, owner.indexIn? .typeDef = some n ∧ n < m.types.size ∧
      inner.token = .ofIndex .typeDef m.types.size ∧ inner.enclosing = some owner ∧
      inner.methods = #[] ∧ inner.nestedTypes = #[] ∧
      m' = { m with
        types := (m.types.modify n fun type =>
          { type with
            nestedTypes := type.nestedTypes.push (.ofIndex .typeDef m.types.size) }).push
          inner } := by
  rw [addNestedType, Edit.get_bind] at h
  obtain ⟨n, hn, hlt, h⟩ := modifyType_bind_eq_ok h
  cases h
  exact ⟨n, _, hn, hlt, rfl, rfl, rfl, rfl, rfl⟩

theorem addField_eq_ok {fieldType : TypeSig} {flags : FieldFlags}
    {customAttributes : List String}
    (h : addField owner name fieldType flags customAttributes m = .ok t m') :
    ∃ n fields, m' = { m with
      types := m.types.modify n fun type => { type with
        fields := type.fields.push (.ofIndex .field m.fields.size) }
      fields } := by
  rw [addField, Edit.get_bind] at h
  obtain ⟨n, -, -, h⟩ := modifyType_bind_eq_ok h
  cases h
  exact ⟨n, _, rfl⟩

theorem addMethod_eq_ok {flags : MethodFlags} {signature : MethodSig} {body : Option MethodBody}
    (h : addMethod owner name flags signature body m = .ok t m') :
    ∃ n method, owner.indexIn? .typeDef = some n ∧ n < m.types.size ∧
      method.token = .ofIndex .methodDef m.methods.size ∧ method.declaringType = owner ∧
      m' = { m with
        types := m.types.modify n fun type => { type with
          methods := type.methods.push (.ofIndex .methodDef m.methods.size) }
        methods := m.methods.push method } := by
  rw [addMethod, Edit.get_bind] at h
  obtain ⟨n, hn, hlt, h⟩ := modifyType_bind_eq_ok h
  cases h
  exact ⟨n, _, hn, hlt, rfl, rfl, rfl⟩

section Refusals

variable {e : Error}

theorem addNestedType_eq_error_iff {flags : TypeFlags} :
    addNestedType owner name flags m = .error e m' ↔
      m.typeDef? owner = none ∧ e = .typeNotFound owner.text ∧ m' = m := by
  rw [addNestedType, Edit.get_bind]
  refine modifyType_bind_eq_error_iff ?_
  exact fun _ => ⟨_, _, rfl⟩

theorem addField_eq_error_iff {fieldType : TypeSig} {flags : FieldFlags}
    {customAttributes : List String} :
    addField owner name fieldType flags customAttributes m = .error e m' ↔
      m.typeDef? owner = none ∧ e = .typeNotFound owner.text ∧ m' = m := by
  rw [addField, Edit.get_bind]
  refine modifyType_bind_eq_error_iff ?_
  exact fun _ => ⟨_, _, rfl⟩

theorem addMethod_eq_error_iff {flags : MethodFlags} {signature : MethodSig}
    {body : Option MethodBody} : addMethod owner name flags signature body m = .error e m' ↔
      m.typeDef? owner = none ∧ e = .typeNotFound owner.text ∧ m' = m := by
  rw [addMethod, Edit.get_bind]
  refine modifyType_bind_eq_error_iff ?_
  exact fun _ => ⟨_, _, rfl⟩

end Refusals

theorem Built.addedField {fieldType : TypeSig} {flags : FieldFlags}
    {customAttributes : List String} (h : m.Built) :
    ((Module.addField owner name fieldType flags customAttributes).after m).Built := by
  cases hadd : Module.addField owner name fieldType flags customAttributes m with
  | ok t m' => exact Edit.after_ok hadd ▸ .addField h hadd
  | error e m' =>
    obtain ⟨-, -, rfl⟩ := addField_eq_error_iff.mp hadd
    rwa [Edit.after_error hadd]

theorem Built.addedMethod {flags : MethodFlags} {signature : MethodSig}
    {body : Option MethodBody} (h : m.Built) :
    ((Module.addMethod owner name flags signature body).after m).Built := by
  cases hadd : Module.addMethod owner name flags signature body m with
  | ok t m' => exact Edit.after_ok hadd ▸ .addMethod h hadd
  | error e m' =>
    obtain ⟨-, -, rfl⟩ := addMethod_eq_error_iff.mp hadd
    rwa [Edit.after_error hadd]

/-! ## Owners -/

/-- The tokens are those of some rows of a table, no row twice, and each row is one that `P`
holds of. -/
def ListsRows (tokens : Array Token) (table : Table) (P : Nat → Prop) : Prop :=
  ∃ rows : List Nat, rows.Nodup ∧ tokens.toList = rows.map (Token.ofIndex table) ∧
    ∀ n ∈ rows, P n

namespace ListsRows

variable {tokens : Array Token} {table : Table} {P P' : Nat → Prop}

theorem empty : ListsRows #[] table P := ⟨[], List.nodup_nil, rfl, by simp⟩

theorem mono (h : ListsRows tokens table P) (hP : ∀ n, P n → P' n) : ListsRows tokens table P' := by
  obtain ⟨rows, hnodup, htokens, hrows⟩ := h
  exact ⟨rows, hnodup, htokens, fun n hn => hP n (hrows n hn)⟩

theorem push {n : Nat} (h : ListsRows tokens table P) (hfresh : ¬ P n) (hP : ∀ k, P k → P' k)
    (hn : P' n) : ListsRows (tokens.push (.ofIndex table n)) table P' := by
  obtain ⟨rows, hnodup, htokens, hrows⟩ := h
  refine ⟨rows ++ [n], ?_, by rw [Array.toList_push, htokens]; simp, ?_⟩
  · rw [List.nodup_append]
    refine ⟨hnodup, by simp, fun k hk x hx hkx => hfresh ?_⟩
    rw [← List.mem_singleton.mp hx, ← hkx]
    exact hrows k hk
  · intro k hk
    rcases List.mem_append.mp hk with hk | hk
    · exact hP k (hrows k hk)
    · rw [List.mem_singleton.mp hk]
      exact hn

end ListsRows

/-- Row `k` of the methods names row `n` of the types as its owner. -/
def MethodOf (m : Module) (n k : Nat) : Prop :=
  ∃ method, m.methods[k]? = some method ∧ method.declaringType.indexIn? .typeDef = some n

/-- Row `k` of the types names row `n` as the type around it. -/
def NestedIn (m : Module) (n k : Nat) : Prop :=
  ∃ inner outer, m.types[k]? = some inner ∧ inner.enclosing = some outer ∧
    outer.indexIn? .typeDef = some n

/-- How the tables of a module hang together. -/
structure Linked (m : Module) : Prop where
  typeToken : ∀ {n : Nat} {type : TypeDef}, m.types[n]? = some type →
    type.token = .ofIndex .typeDef n
  methodToken : ∀ {n : Nat} {method : MethodDef}, m.methods[n]? = some method →
    method.token = .ofIndex .methodDef n
  methods : ∀ {n : Nat} {type : TypeDef}, m.types[n]? = some type →
    ListsRows type.methods .methodDef (m.MethodOf n)
  nestedTypes : ∀ {n : Nat} {type : TypeDef}, m.types[n]? = some type →
    ListsRows type.nestedTypes .typeDef (m.NestedIn n)
  references : m.references.toList.Nodup

theorem not_methodOf_size (m : Module) (n : Nat) : ¬ m.MethodOf n m.methods.size := by
  rintro ⟨method, hmethod, -⟩
  rw [Array.getElem?_eq_none (Nat.le_refl _)] at hmethod
  cases hmethod

theorem not_nestedIn_size (m : Module) (n : Nat) : ¬ m.NestedIn n m.types.size := by
  rintro ⟨inner, outer, hinner, -⟩
  rw [Array.getElem?_eq_none (Nat.le_refl _)] at hinner
  cases hinner

theorem getElem?_push_of_some {α : Type} {xs : Array α} {x a : α} {n : Nat}
    (h : xs[n]? = some a) : (xs.push x)[n]? = some a := by
  have hlt := (Array.getElem?_eq_some_iff.mp h).1
  rw [Array.getElem?_push, if_neg (Nat.ne_of_lt hlt), h]

theorem getElem?_push_eq_some {α : Type} {xs : Array α} {x a : α} {n : Nat}
    (h : (xs.push x)[n]? = some a) : n = xs.size ∧ a = x ∨ xs[n]? = some a := by
  rw [Array.getElem?_push] at h
  split at h
  · rename_i hn
    exact .inl ⟨hn, (Option.some.inj h).symm⟩
  · exact .inr h

theorem getElem?_modify_eq_some {α : Type} {xs : Array α} {f : α → α} {n k : Nat} {a : α}
    (h : (xs.modify n f)[k]? = some a) :
    ∃ old, xs[k]? = some old ∧ (n = k ∧ a = f old ∨ n ≠ k ∧ a = old) := by
  rw [Array.getElem?_modify] at h
  split at h
  · rename_i hnk
    obtain ⟨old, hold, rfl⟩ := Option.map_eq_some_iff.mp h
    exact ⟨old, hold, .inl ⟨hnk, rfl⟩⟩
  · rename_i hnk
    exact ⟨a, h, .inr ⟨hnk, rfl⟩⟩

theorem push_modify {α : Type} {xs : Array α} {x : α} {f : α → α} {n : Nat} (h : n < xs.size) :
    (xs.modify n f).push x = (xs.push x).modify n f := by
  refine Array.ext_getElem? fun k => ?_
  rw [Array.getElem?_push, Array.getElem?_modify, Array.getElem?_modify, Array.getElem?_push,
    Array.size_modify]
  by_cases hk : k = xs.size
  · rw [if_pos hk, if_neg (by omega), if_pos hk]
  · rw [if_neg hk, if_neg hk]

theorem MethodOf.push {n k : Nat} (h : m.MethodOf n k) (method : MethodDef) :
    MethodOf { m with methods := m.methods.push method } n k := by
  obtain ⟨old, hold, howner⟩ := h
  exact ⟨old, getElem?_push_of_some hold, howner⟩

/-- A type stays nested as long as the types around types do not change. -/
theorem NestedIn.mono {n k : Nat} (h : m.NestedIn n k)
    (htypes : ∀ {k : Nat} {type : TypeDef}, m.types[k]? = some type →
      ∃ type', m'.types[k]? = some type' ∧ type'.enclosing = type.enclosing) :
    m'.NestedIn n k := by
  obtain ⟨inner, outer, hinner, houter, hn⟩ := h
  obtain ⟨inner', hinner', henclosing⟩ := htypes hinner
  exact ⟨inner', outer, hinner', henclosing.trans houter, hn⟩

namespace Linked

theorem empty (name : String) : Linked (.empty name) :=
  ⟨nofun, nofun, nofun, nofun, List.nodup_nil⟩

theorem pushType {type : TypeDef} (h : m.Linked)
    (htoken : type.token = .ofIndex .typeDef m.types.size) (hmethods : type.methods = #[])
    (hnested : type.nestedTypes = #[]) :
    Linked { m with types := m.types.push type } := by
  have hkept : ∀ {n k : Nat}, m.NestedIn n k →
      NestedIn { m with types := m.types.push type } n k := fun hnk =>
    hnk.mono fun hk => ⟨_, getElem?_push_of_some hk, rfl⟩
  refine ⟨fun hn => ?_, h.methodToken, fun hn => ?_, fun hn => ?_, h.references⟩
  · rcases getElem?_push_eq_some hn with ⟨rfl, rfl⟩ | hold
    · exact htoken
    · exact h.typeToken hold
  · rcases getElem?_push_eq_some hn with ⟨rfl, rfl⟩ | hold
    · rw [hmethods]
      exact .empty
    · exact h.methods hold
  · rcases getElem?_push_eq_some hn with ⟨rfl, rfl⟩ | hold
    · rw [hnested]
      exact .empty
    · exact (h.nestedTypes hold).mono fun _ => hkept

theorem pushMethod {method : MethodDef} (h : m.Linked)
    (htoken : method.token = .ofIndex .methodDef m.methods.size) :
    Linked { m with methods := m.methods.push method } := by
  refine ⟨h.typeToken, fun hn => ?_, fun hn => ?_, h.nestedTypes, h.references⟩
  · rcases getElem?_push_eq_some hn with ⟨rfl, rfl⟩ | hold
    · exact htoken
    · exact h.methodToken hold
  · exact (h.methods hn).mono fun _ hk => hk.push method

/-- One type may come to own other definitions, if those name it as their owner. -/
theorem modifyType {n : Nat} {f : TypeDef → TypeDef} (h : m.Linked)
    (htoken : ∀ type, (f type).token = type.token)
    (henclosing : ∀ type, (f type).enclosing = type.enclosing)
    (hmethods : ∀ {type}, m.types[n]? = some type →
      ListsRows (f type).methods .methodDef (m.MethodOf n))
    (hnested : ∀ {type}, m.types[n]? = some type →
      ListsRows (f type).nestedTypes .typeDef (m.NestedIn n)) :
    Linked { m with types := m.types.modify n f } := by
  have hkept : ∀ {k : Nat} {type : TypeDef}, m.types[k]? = some type →
      ∃ type', (m.types.modify n f)[k]? = some type' ∧ type'.enclosing = type.enclosing := by
    intro k type hk
    rw [Array.getElem?_modify]
    by_cases hnk : n = k
    · rw [if_pos hnk, hk]
      exact ⟨f type, rfl, henclosing type⟩
    · rw [if_neg hnk]
      exact ⟨type, hk, rfl⟩
  refine ⟨fun hk => ?_, h.methodToken, fun hk => ?_, fun hk => ?_, h.references⟩ <;>
    obtain ⟨old, hold, ⟨rfl, rfl⟩ | ⟨-, rfl⟩⟩ := getElem?_modify_eq_some hk
  · exact (htoken old).trans (h.typeToken hold)
  · exact h.typeToken hold
  · exact hmethods hold
  · exact h.methods hold
  · exact (hnested hold).mono fun _ hnk => hnk.mono hkept
  · exact (h.nestedTypes hold).mono fun _ hnk => hnk.mono hkept

theorem addNestedType {flags : TypeFlags} (h : m.Linked)
    (hadd : Module.addNestedType owner name flags m = .ok t m') : m'.Linked := by
  obtain ⟨n, inner, hn, hlt, htoken, henclosing, hmethods, hnested, rfl⟩ :=
    addNestedType_eq_ok hadd
  have hpushed := h.pushType htoken hmethods hnested
  rw [push_modify hlt]
  refine hpushed.modifyType (fun _ => rfl) (fun _ => rfl) hpushed.methods (fun hold => ?_)
  rw [Array.getElem?_push, if_neg (Nat.ne_of_lt hlt)] at hold
  refine (h.nestedTypes hold).push (not_nestedIn_size m n) (fun k hk => ?_) ?_
  · exact hk.mono fun hk => ⟨_, getElem?_push_of_some hk, rfl⟩
  · exact ⟨inner, owner, Array.getElem?_push_size, henclosing, hn⟩

theorem addField {fieldType : TypeSig} {flags : FieldFlags} {customAttributes : List String}
    (h : m.Linked)
    (hadd : Module.addField owner name fieldType flags customAttributes m = .ok t m') :
    m'.Linked := by
  obtain ⟨n, fields, rfl⟩ := addField_eq_ok hadd
  have hmodified : Linked { m with types := m.types.modify n fun type => { type with
      fields := type.fields.push (.ofIndex .field m.fields.size) } } :=
    h.modifyType (fun _ => rfl) (fun _ => rfl) h.methods h.nestedTypes
  exact ⟨hmodified.typeToken, hmodified.methodToken, hmodified.methods, hmodified.nestedTypes,
    hmodified.references⟩

theorem addMethod {flags : MethodFlags} {signature : MethodSig} {body : Option MethodBody}
    (h : m.Linked) (hadd : Module.addMethod owner name flags signature body m = .ok t m') :
    m'.Linked := by
  obtain ⟨n, method, hn, -, htoken, rfl, rfl⟩ := addMethod_eq_ok hadd
  refine (h.pushMethod htoken).modifyType (fun _ => rfl) (fun _ => rfl) (fun hold => ?_)
    h.nestedTypes
  exact (h.methods hold).push (not_methodOf_size m n) (fun _ hk => hk.push method)
    ⟨method, Array.getElem?_push_size, hn⟩

theorem importMember (h : m.Linked) (member : MemberRef) : (m.importMember member).2.Linked :=
  { h with references := ReferenceTable.nodup_intern h.references member }

end Linked

/-- However the `add` functions are used, the tables hang together. -/
theorem Built.linked (h : m.Built) : m.Linked := by
  induction h with
  | empty name => exact .empty name
  | addType nameSpace name flags _ ih => exact ih.pushType rfl rfl rfl
  | addNestedType _ hadd ih => exact ih.addNestedType hadd
  | addField _ hadd ih => exact ih.addField hadd
  | addMethod _ hadd ih => exact ih.addMethod hadd
  | importMember member _ ih => exact ih.importMember member

end Module

end CilWeave
