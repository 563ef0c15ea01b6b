import Mathlib.Data.List.Nodup
import CilWeave.Module.Enumeration
import CilWeave.Proofs.Module.Built

/-
No type and no method of a built module is enumerated twice.

Types are enumerated level by level, and a type stands in the level of its depth
(`Module.AtDepth`), which is fixed by the types around it; so the levels have nothing in
common (`Module.Linked.nodup_allTypes`). A method has one owner, which names it once, so the
methods of all types together are all different (`Module.Linked.nodup_methods`).
-/

namespace CilWeave.Module

variable {m : Module} {t : Token}

theorem ListsRows.nodup {tokens : Array Token} {table : Table} {P : Nat → Prop}
    (h : ListsRows tokens table P) (hP : ∀ n, P n → n + 1 < 0x1000000) : tokens.toList.Nodup := by
  obtain ⟨rows, hnodup, htokens, hrows⟩ := h
  rw [htokens]
  exact hnodup.map_on fun n hn k hk heq =>
    Token.ofIndex_inj (hP n (hrows n hn)) (hP k (hrows k hk)) heq

namespace Linked

variable (hm : m.Linked) (hfits : m.types.size < 0x1000000)

include hm hfits

theorem row_unique {n k : Nat} {type : TypeDef} (hn : m.types[n]? = some type)
    (hk : m.types[k]? = some type) : n = k := by
  have hltn := lt_size_of_getElem? hn
  have hltk := lt_size_of_getElem? hk
  have heq := (hm.typeToken hn).symm.trans (hm.typeToken hk)
  exact Token.ofIndex_inj (by omega) (by omega) heq

theorem nodup_types : m.types.toList.Nodup := by
  refine List.pairwise_iff_getElem.mpr fun i j hi hj hij heq => ?_
  have hrowi : m.types[i]? = some m.types.toList[i] := by
    rw [← Array.getElem?_toList]
    exact List.getElem?_eq_getElem hi
  have hrowj : m.types[j]? = some m.types.toList[j] := by
    rw [← Array.getElem?_toList]
    exact List.getElem?_eq_getElem hj
  have hsame : i = j := hm.row_unique hfits (heq ▸ hrowi) hrowj
  omega

theorem enclosing_of_nested {n : Nat} {outer inner : TypeDef} (hn : m.types[n]? = some outer)
    (ht : t ∈ outer.nestedTypes.toList) (hinner : m.typeDef? t = some inner) :
    ∃ (k : Nat) (e : Token), m.types[k]? = some inner ∧ inner.enclosing = some e ∧
      m.typeDef? e = some outer := by
  obtain ⟨rows, -, htokens, hrows⟩ := hm.nestedTypes hn
  rw [htokens] at ht
  obtain ⟨k, hk, rfl⟩ := List.mem_map.mp ht
  obtain ⟨type, e, htype, he, hindex⟩ := hrows k hk
  rw [typeDef?_ofIndex hfits htype] at hinner
  cases hinner
  exact ⟨k, e, htype, he, typeDef?_eq_some.mpr ⟨n, hindex, hn⟩⟩

omit hm hfits in
theorem mem_nestedIn {level : List TypeDef} {inner : TypeDef} : inner ∈ m.nestedIn level ↔
    ∃ outer ∈ level, ∃ t ∈ outer.nestedTypes.toList, m.typeDef? t = some inner := by
  unfold nestedIn
  simp only [List.mem_flatMap, List.mem_filterMap]

theorem nodup_nestedIn {level : List TypeDef} (hlevel : level.Nodup)
    (hin : ∀ type ∈ level, ∃ n : Nat, m.types[n]? = some type) : (m.nestedIn level).Nodup := by
  unfold nestedIn
  refine List.nodup_flatMap.mpr ⟨fun outer houter => ?_, ?_⟩
  · obtain ⟨n, hn⟩ := hin outer houter
    have htokens := (hm.nestedTypes hn).nodup fun k ⟨_, _, hk, _⟩ => by
      have hlt := lt_size_of_getElem? hk
      omega
    refine List.Nodup.filterMap ?_ htokens
    intro t t' type ht ht'
    obtain ⟨n, hindex, hn⟩ := typeDef?_eq_some.mp ht
    obtain ⟨k, hindex', hk⟩ := typeDef?_eq_some.mp ht'
    rw [hm.row_unique hfits hn hk] at hindex
    exact Token.indexIn?_inj hindex hindex'
  -- A type in two lists would be nested in two types.
  · refine hlevel.pairwise_of_forall_ne fun outer houter outer' houter' hne => ?_
    intro inner hinner hinner'
    obtain ⟨t, ht, hdef⟩ := List.mem_filterMap.mp hinner
    obtain ⟨t', ht', hdef'⟩ := List.mem_filterMap.mp hinner'
    obtain ⟨n, hn⟩ := hin outer houter
    obtain ⟨k, hk⟩ := hin outer' houter'
    obtain ⟨-, e, -, he, houter⟩ := hm.enclosing_of_nested hfits hn ht hdef
    obtain ⟨-, e', -, he', houter'⟩ := hm.enclosing_of_nested hfits hk ht' hdef'
    rw [he] at he'
    cases he'
    rw [houter] at houter'
    exact hne (Option.some.inj houter')

end Linked

/-! ## Levels -/

/-- The type has `d` types around it. -/
inductive AtDepth (m : Module) : Nat → TypeDef → Prop where
  | topLevel {type : TypeDef} : type.enclosing = none → AtDepth m 0 type
  | nested {d : Nat} {type outer : TypeDef} {e : Token} : AtDepth m d outer →
      type.enclosing = some e → m.typeDef? e = some outer → AtDepth m (d + 1) type

theorem AtDepth.unique {d d' : Nat} {type : TypeDef} (h : m.AtDepth d type)
    (h' : m.AtDepth d' type) : d = d' := by
  induction h generalizing d' with
  | topLevel hnone =>
    cases h' with
    | topLevel => rfl
    | nested _ hsome => rw [hnone] at hsome; cases hsome
  | nested _ hsome houter ih =>
    cases h' with
    | topLevel hnone => rw [hnone] at hsome; cases hsome
    | nested hdepth hsome' houter' =>
      rw [hsome] at hsome'
      cases hsome'
      rw [houter] at houter'
      cases houter'
      rw [ih hdepth]

namespace Linked

variable (hm : m.Linked) (hfits : m.types.size < 0x1000000)

include hm hfits

/-- What stands in one level and the next ones: types of that depth and deeper ones, none of
them twice. -/
theorem nodup_levelsFrom : ∀ (count : Nat) {d : Nat} {level : List TypeDef}, level.Nodup →
    (∀ type ∈ level, (∃ n : Nat, m.types[n]? = some type) ∧ m.AtDepth d type) →
    (m.levelsFrom count level).Nodup ∧ ∀ type ∈ m.levelsFrom count level,
      (∃ n : Nat, m.types[n]? = some type) ∧ ∃ d', d ≤ d' ∧ m.AtDepth d' type
  | 0, d, level, _, _ => ⟨List.nodup_nil, by simp [levelsFrom]⟩
  | count + 1, d, [], _, _ => ⟨List.nodup_nil, by simp [levelsFrom]⟩
  | count + 1, d, first :: rest, hnodup, hlevel => by
    have hnext : ∀ type ∈ m.nestedIn (first :: rest),
        (∃ n : Nat, m.types[n]? = some type) ∧ m.AtDepth (d + 1) type := by
      intro type htype
      obtain ⟨outer, houter, t, ht, hdef⟩ := mem_nestedIn.mp htype
      obtain ⟨⟨n, hn⟩, hdepth⟩ := hlevel outer houter
      obtain ⟨k, e, hk, he, hdef'⟩ := hm.enclosing_of_nested hfits hn ht hdef
      exact ⟨⟨k, hk⟩, .nested hdepth he hdef'⟩
    obtain ⟨hlater, hdeeper⟩ := nodup_levelsFrom count
      (hm.nodup_nestedIn hfits hnodup fun type htype => (hlevel type htype).1) hnext
    rw [levelsFrom.eq_def]
    refine ⟨List.nodup_append.mpr ⟨hnodup, hlater, ?_⟩, fun type htype => ?_⟩
    · rintro type htype _ hother rfl
      obtain ⟨-, d', hle, hdepth⟩ := hdeeper type hother
      have := (hlevel type htype).2.unique hdepth
      omega
    · rcases List.mem_append.mp htype with htype | htype
      · exact ⟨(hlevel type htype).1, d, Nat.le_refl d, (hlevel type htype).2⟩
      · obtain ⟨hrow, d', hle, hdepth⟩ := hdeeper type htype
        exact ⟨hrow, d', by omega, hdepth⟩

theorem nodup_allTypes :
    m.allTypes.Nodup ∧ ∀ type ∈ m.allTypes, ∃ n : Nat, m.types[n]? = some type := by
  have htop : ∀ type ∈ m.topLevelTypes,
      (∃ n : Nat, m.types[n]? = some type) ∧ m.AtDepth 0 type := by
    intro type htype
    obtain ⟨hmem, hnested⟩ := List.mem_filter.mp htype
    obtain ⟨n, hn⟩ := List.mem_iff_getElem?.mp hmem
    rw [Array.getElem?_toList] at hn
    refine ⟨⟨n, hn⟩, .topLevel ?_⟩
    unfold TypeDef.isNested at hnested
    cases henclosing : type.enclosing with
    | none => rfl
    | some e => rw [henclosing] at hnested; cases hnested
  obtain ⟨hnodup, hrows⟩ := hm.nodup_levelsFrom hfits m.types.size
    ((hm.nodup_types hfits).filter _) htop
  exact ⟨hnodup, fun type htype => (hrows type htype).1⟩

omit hfits in
/-- A method that a type lists is there, under the token it is listed by, and names the type. -/
theorem method_of_mem (hmethods : m.methods.size < 0x1000000) {n : Nat} {type : TypeDef}
    (hn : m.types[n]? = some type) (ht : t ∈ type.methods.toList) :
    ∃ method, m.methodDef? t = some method ∧ method.token = t ∧
      method.declaringType.indexIn? .typeDef = some n := by
  obtain ⟨rows, -, htokens, hrows⟩ := hm.methods hn
  rw [htokens] at ht
  obtain ⟨k, hk, rfl⟩ := List.mem_map.mp ht
  obtain ⟨method, hmethod, howner⟩ := hrows k hk
  exact ⟨method, methodDef?_ofIndex hmethods hmethod, hm.methodToken hmethod, howner⟩

omit hfits in
theorem map_token_methods (hmethods : m.methods.size < 0x1000000) {n : Nat} {type : TypeDef}
    (hn : m.types[n]? = some type) :
    (type.methods.toList.filterMap m.methodDef?).map MethodDef.token = type.methods.toList := by
  rw [List.map_filterMap]
  refine (List.filterMap_congr fun t ht => ?_).trans List.filterMap_some
  obtain ⟨method, hdef, htoken, -⟩ := hm.method_of_mem hmethods hn ht
  rw [hdef]
  exact congrArg some htoken

/-- No method is listed twice, be it by one type or by two. -/
theorem nodup_methods (hmethods : m.methods.size < 0x1000000) :
    (m.allTypes.flatMap fun type => type.methods.toList).Nodup := by
  obtain ⟨hnodup, hrows⟩ := hm.nodup_allTypes hfits
  refine List.nodup_flatMap.mpr ⟨fun type htype => ?_, ?_⟩
  · obtain ⟨n, hn⟩ := hrows type htype
    exact (hm.methods hn).nodup fun k ⟨_, hk, _⟩ => by
      have hlt := lt_size_of_getElem? hk
      omega
  · refine hnodup.pairwise_of_forall_ne fun type htype other hother hne => ?_
    intro t ht ht'
    obtain ⟨n, hn⟩ := hrows type htype
    obtain ⟨k, hk⟩ := hrows other hother
    obtain ⟨method, hdef, -, howner⟩ := hm.method_of_mem hmethods hn ht
    obtain ⟨method', hdef', -, howner'⟩ := hm.method_of_mem hmethods hk ht'
    rw [hdef] at hdef'
    cases hdef'
    rw [howner] at howner'
    cases howner'
    rw [hn] at hk
    exact hne (Option.some.inj hk)

theorem nodup_allMethods (hmethods : m.methods.size < 0x1000000) :
    (m.allMethods.map MethodDef.token).Nodup := by
  have htokens : m.allMethods.map MethodDef.token =
      m.allTypes.flatMap fun type => type.methods.toList := by
    rw [allMethods, List.map_flatMap]
    refine List.flatMap_congr fun type htype => ?_
    obtain ⟨n, hn⟩ := (hm.nodup_allTypes hfits).2 type htype
    exact hm.map_token_methods hmethods hn
  rw [htokens]
  exact hm.nodup_methods hfits hmethods

end Linked

end CilWeave.Module
