import Mathlib.Logic.Function.Iterate
import CilWeave.Proofs.Module.Enumeration

/-
Every type and every method of a built module is enumerated.

What the `add` functions add, an owner lists (`Module.Listed`): a method is listed by its type,
and a nested type by one that was there before it. So a type stands in a level whose number is
at most its row, and there are enough levels for all rows (`Module.mem_allTypes`). With the
types come their methods (`Module.mem_allMethods`).
-/

namespace CilWeave

theorem Token.lt_of_indexIn? {t : Token} {table : Table} {n : Nat}
    (h : t.indexIn? table = some n) : n + 1 < 0x1000000 := by
  have hrow := (indexIn?_eq_some h).2
  have hmask : t.row.toNat = t.value.toNat % 0x1000000 := by
    rw [row, UInt32.toNat_and]
    exact Nat.and_two_pow_sub_one_eq_mod t.value.toNat 24
  omega

theorem Token.eq_ofIndex {t : Token} {table : Table} {n : Nat} (h : t.indexIn? table = some n) :
    t = .ofIndex table n := indexIn?_inj h (indexIn?_ofIndex (lt_of_indexIn? h))

namespace Module

variable {m m' : Module} {t owner : Token} {name : String} {method : MethodDef} {type : TypeDef}

/-! ## What the owners list -/

/-- Every method is listed by a type, and every nested type by one that was there before. -/
structure Listed (m : Module) : Prop where
  methods : ∀ {k : Nat} {method : MethodDef}, m.methods[k]? = some method →
    ∃ (n : Nat) (type : TypeDef), m.types[n]? = some type ∧ .ofIndex .methodDef k ∈ type.methods
  nested : ∀ {k : Nat} {inner : TypeDef} {e : Token}, m.types[k]? = some inner →
    inner.enclosing = some e → ∃ (n : Nat) (outer : TypeDef), n < k ∧
      m.types[n]? = some outer ∧ .ofIndex .typeDef k ∈ outer.nestedTypes

namespace Listed

/-- A type that lists more is still listed, and lists what it did. -/
theorem modifyType {n : Nat} {f : TypeDef → TypeDef} (h : m.Listed)
    (henclosing : ∀ type, (f type).enclosing = type.enclosing)
    (hmethods : ∀ (type : TypeDef) (t : Token), t ∈ type.methods → t ∈ (f type).methods)
    (hnested : ∀ (type : TypeDef) (t : Token), t ∈ type.nestedTypes → t ∈ (f type).nestedTypes) :
    Listed { m with types := m.types.modify n f } := by
  have hkept : ∀ {k : Nat} {type : TypeDef}, m.types[k]? = some type →
      ∃ type', (m.types.modify n f)[k]? = some type' ∧ (type' = type ∨ type' = f type) := by
    intro k type hk
    rw [Array.getElem?_modify]
    by_cases hnk : n = k
    · rw [if_pos hnk, hk]
      exact ⟨f type, rfl, .inr rfl⟩
    · rw [if_neg hnk]
      exact ⟨type, hk, .inl rfl⟩
  constructor
  · intro k method hk
    obtain ⟨j, type, hj, hlists⟩ := h.methods hk
    obtain ⟨type', hj', rfl | rfl⟩ := hkept hj
    · exact ⟨j, type', hj', hlists⟩
    · exact ⟨j, f type, hj', hmethods type _ hlists⟩
  · intro k inner e hk he
    obtain ⟨old, hold, hcases⟩ := getElem?_modify_eq_some hk
    have hold_enclosing : old.enclosing = some e := by
      rcases hcases with ⟨-, rfl⟩ | ⟨-, rfl⟩
      · exact (henclosing old).symm.trans he
      · exact he
    obtain ⟨j, outer, hlt, hj, hlists⟩ := h.nested hold hold_enclosing
    obtain ⟨outer', hj', rfl | rfl⟩ := hkept hj
    · exact ⟨j, outer', hlt, hj', hlists⟩
    · exact ⟨j, f outer, hlt, hj', hnested outer _ hlists⟩

theorem pushType (h : m.Listed) (hlisted : ∀ e, type.enclosing = some e →
    ∃ (n : Nat) (outer : TypeDef), m.types[n]? = some outer ∧
      .ofIndex .typeDef m.types.size ∈ outer.nestedTypes) :
    Listed { m with types := m.types.push type } := by
  constructor
  · intro k method hk
    obtain ⟨n, owner, hn, hlists⟩ := h.methods hk
    exact ⟨n, owner, getElem?_push_of_some hn, hlists⟩
  · intro k inner e hk he
    rcases getElem?_push_eq_some hk with ⟨rfl, rfl⟩ | hold
    · obtain ⟨n, outer, hn, hlists⟩ := hlisted e he
      exact ⟨n, outer, lt_size_of_getElem? hn, getElem?_push_of_some hn, hlists⟩
    · obtain ⟨n, outer, hlt, hn, hlists⟩ := h.nested hold he
      exact ⟨n, outer, hlt, getElem?_push_of_some hn, hlists⟩

theorem pushMethod (h : m.Listed) {n : Nat} (hn : m.types[n]? = some type)
    (hlists : .ofIndex .methodDef m.methods.size ∈ type.methods) :
    Listed { m with methods := m.methods.push method } := by
  refine ⟨fun {k found} hk => ?_, h.nested⟩
  rcases getElem?_push_eq_some hk with ⟨rfl, -⟩ | hold
  · exact ⟨n, type, hn, hlists⟩
  · exact h.methods hold

theorem getElem?_modify_self {n : Nat} (hlt : n < m.types.size) (f : TypeDef → TypeDef) :
    (m.types.modify n f)[n]? = some (f m.types[n]) := by
  rw [Array.getElem?_modify, if_pos rfl, Array.getElem?_eq_getElem hlt, Option.map_some]

end Listed

theorem Built.listed (h : m.Built) : m.Listed := by
  induction h with
  | empty name => exact ⟨nofun, nofun⟩
  | addType nameSpace name flags _ ih => exact ih.pushType nofun
  | @addNestedType m m' _ _ _ _ _ hadd ih =>
    obtain ⟨n, inner, -, hlt, -, -, -, -, rfl⟩ := addNestedType_eq_ok hadd
    have hlists : Listed { m with types := m.types.modify n fun type => { type with
        nestedTypes := type.nestedTypes.push (.ofIndex .typeDef m.types.size) } } :=
      ih.modifyType (fun _ => rfl) (fun _ _ ht => ht) fun _ _ ht => Array.mem_push_of_mem _ ht
    refine hlists.pushType fun e he => ⟨n, _, Listed.getElem?_modify_self hlt _, ?_⟩
    rw [Array.size_modify]
    exact Array.mem_push_self
  | @addField m m' _ _ _ _ _ _ _ hadd ih =>
    obtain ⟨n, fields, rfl⟩ := addField_eq_ok hadd
    have hlists : Listed { m with types := m.types.modify n fun type => { type with
        fields := type.fields.push (.ofIndex .field m.fields.size) } } :=
      ih.modifyType (fun _ => rfl) (fun _ _ ht => ht) fun _ _ ht => ht
    exact ⟨hlists.methods, hlists.nested⟩
  | @addMethod m m' _ _ _ _ _ _ _ hadd ih =>
    obtain ⟨n, method, -, hlt, -, -, rfl⟩ := addMethod_eq_ok hadd
    have hlists : Listed { m with types := m.types.modify n fun type => { type with
        methods := type.methods.push (.ofIndex .methodDef m.methods.size) } } :=
      ih.modifyType (fun _ => rfl) (fun _ _ ht => Array.mem_push_of_mem _ ht) fun _ _ ht => ht
    exact hlists.pushMethod (Listed.getElem?_modify_self hlt _) Array.mem_push_self
  | importMember member _ ih => exact ⟨ih.methods, ih.nested⟩

/-! ## Levels -/

theorem nestedIn_nil (m : Module) : m.nestedIn [] = [] := rfl

/-- The levels that are enumerated are those below the count. -/
theorem mem_levelsFrom : ∀ (d : Nat) {count : Nat} {level : List TypeDef}, d < count →
    type ∈ m.nestedIn^[d] level → type ∈ m.levelsFrom count level
  | d, 0, _, hlt, _ => absurd hlt (Nat.not_lt_zero d)
  | d, count + 1, [], _, h => by
    rw [Function.iterate_fixed m.nestedIn_nil] at h
    cases h
  | 0, count + 1, first :: rest, _, h => by
    rw [levelsFrom.eq_def]
    exact List.mem_append_left _ h
  | d + 1, count + 1, first :: rest, hlt, h => by
    rw [Function.iterate_succ_apply] at h
    rw [levelsFrom.eq_def]
    exact List.mem_append_right _ (mem_levelsFrom d (Nat.lt_of_succ_lt_succ hlt) h)

namespace Listed

variable (hm : m.Listed) (hfits : m.types.size < 0x1000000)

include hm hfits

theorem exists_level (k : Nat) : ∀ {type : TypeDef}, m.types[k]? = some type →
    ∃ d ≤ k, type ∈ m.nestedIn^[d] m.topLevelTypes := by
  induction k using Nat.strongRecOn with
  | ind k ih =>
    intro type hk
    cases henclosing : type.enclosing with
    | none =>
      refine ⟨0, Nat.zero_le k, List.mem_filter.mpr ⟨?_, ?_⟩⟩
      · rw [← Array.getElem?_toList] at hk
        exact List.mem_of_getElem? hk
      · simp only [TypeDef.isNested, henclosing, Option.isSome_none, Bool.not_false]
    | some e =>
      obtain ⟨n, outer, hlt, hn, hlists⟩ := hm.nested hk henclosing
      obtain ⟨d, hle, houter⟩ := ih n hlt hn
      refine ⟨d + 1, by omega, ?_⟩
      rw [Function.iterate_succ_apply']
      exact Linked.mem_nestedIn.mpr ⟨outer, houter, _, Array.mem_toList_iff.mpr hlists,
        typeDef?_ofIndex hfits hk⟩

theorem mem_allTypes {k : Nat} (hk : m.types[k]? = some type) : type ∈ m.allTypes := by
  obtain ⟨d, hle, hlevel⟩ := hm.exists_level hfits k hk
  exact mem_levelsFrom d (Nat.lt_of_le_of_lt hle (lt_size_of_getElem? hk)) hlevel

/-- Every method that a token names is enumerated. -/
theorem mem_allMethods (ht : m.methodDef? t = some method) : method ∈ m.allMethods := by
  obtain ⟨k, hindex, hk⟩ := methodDef?_eq_some.mp ht
  obtain ⟨n, type, hn, hlists⟩ := hm.methods hk
  rw [← Token.eq_ofIndex hindex] at hlists
  rw [allMethods, List.mem_flatMap]
  exact ⟨type, hm.mem_allTypes hfits hn,
    List.mem_filterMap.mpr ⟨t, Array.mem_toList_iff.mpr hlists, ht⟩⟩

end Listed

theorem Built.token_eq (h : m.Built) (ht : m.methodDef? t = some method) : method.token = t := by
  obtain ⟨n, hindex, hn⟩ := methodDef?_eq_some.mp ht
  rw [h.linked.methodToken hn, Token.eq_ofIndex hindex]

end Module

end CilWeave
