import CilWeave.Proofs.Module.Enumeration
import CilWeave.Proofs.Module.Walk

/-
The enumeration of the types as a walk with a queue.

A walk knows of no levels, and one over the rows of the table tells two rows apart that hold
equal types. Where the walk ends, the enumeration is what it yields, over the types
(`Module.allTypes_eq_of_walk`) as over the rows (`Module.allTypes_eq_of_rows`).
-/

namespace CilWeave.Module

variable {m : Module} {type inner : TypeDef}

/-- The types nested directly in a type, as it lists them. -/
def listedIn (m : Module) (type : TypeDef) : List TypeDef :=
  type.nestedTypes.toList.filterMap m.typeDef?

theorem listedIn_subset (type : TypeDef) : m.listedIn type ⊆ m.types.toList := by
  intro inner h
  obtain ⟨t, -, ht⟩ := List.mem_filterMap.mp h
  obtain ⟨n, -, hn⟩ := typeDef?_eq_some.mp ht
  rw [← Array.getElem?_toList] at hn
  exact List.mem_of_getElem? hn

theorem levelsFrom_eq_breadth (count : Nat) (level : List TypeDef) :
    m.levelsFrom count level = Walk.breadth m.listedIn count level := by
  induction count generalizing level with
  | zero => rfl
  | succ count ih =>
    cases level with
    | nil =>
      have hnone : Walk.breadth m.listedIn (count + 1) [] = [] :=
        (Walk.of_iterate_nil _ (Walk.iterate_nil _)).unique .done
      rw [hnone]
      rfl
    | cons type level =>
      rw [levelsFrom.eq_def]
      show type :: level ++ m.levelsFrom count (m.nestedIn (type :: level)) = _
      rw [ih]
      rfl

theorem allTypes_eq_breadth :
    m.allTypes = Walk.breadth m.listedIn m.types.size m.topLevelTypes :=
  levelsFrom_eq_breadth m.types.size m.topLevelTypes

/-- A walk that ends has at most as many levels as there are types. -/
theorem allTypes_eq_of_walk {yielded : List TypeDef}
    (h : Walk m.listedIn m.topLevelTypes yielded) : m.allTypes = yielded := by
  have hlevels := h.eq_breadth (fun a _ hb => listedIn_subset a hb) (List.filter_subset_self _)
  rw [allTypes_eq_breadth, ← Array.length_toList, hlevels]

/-! ## Rows -/

def typeRow? (m : Module) (t : Token) : Option Nat :=
  (t.indexIn? .typeDef).filter (· < m.types.size)

/-- The rows of the types that the type in a row lists. -/
def rowsIn (m : Module) (n : Nat) : List Nat :=
  match m.types[n]? with
  | some type => type.nestedTypes.toList.filterMap m.typeRow?
  | none => []

def topRows (m : Module) : List Nat :=
  (List.range m.types.size).filter fun n => m.types[n]?.any fun type => !type.isNested

def typesAt (m : Module) (rows : List Nat) : List TypeDef := rows.filterMap (m.types[·]?)

theorem typeDef?_eq_typeRow? (t : Token) : m.typeDef? t = (m.typeRow? t).bind (m.types[·]?) := by
  unfold typeDef? typeRow?
  cases t.indexIn? .typeDef with
  | none => rfl
  | some n =>
    by_cases hlt : n < m.types.size
    · simp [Option.filter, hlt]
    · simp [Option.filter, hlt]

theorem rowsIn_subset (n : Nat) : m.rowsIn n ⊆ List.range m.types.size := by
  intro k hk
  unfold rowsIn at hk
  split at hk
  · obtain ⟨t, -, ht⟩ := List.mem_filterMap.mp hk
    exact List.mem_range.mpr (by simpa using (Option.filter_eq_some_iff.mp ht).2)
  · cases hk

theorem typesAt_rowsIn {n : Nat} (hn : m.types[n]? = some type) :
    m.typesAt (m.rowsIn n) = m.listedIn type := by
  unfold typesAt rowsIn listedIn
  rw [hn, List.filterMap_filterMap]
  exact List.filterMap_congr fun t _ => (typeDef?_eq_typeRow? t).symm

theorem typesAt_range : m.typesAt (List.range m.types.size) = m.types.toList := by
  have htake : ∀ n, m.typesAt (List.range n) = m.types.toList.take n := by
    intro n
    induction n with
    | zero => rfl
    | succ n ih =>
      unfold typesAt at ih ⊢
      rw [List.range_succ, List.filterMap_append, ih, List.take_add_one, Array.getElem?_toList]
      cases hn : m.types[n]? <;> simp [hn]
  rw [htake, ← Array.length_toList, List.take_length]

theorem typesAt_topRows : m.typesAt m.topRows = m.topLevelTypes := by
  rw [topLevelTypes, ← typesAt_range]
  unfold typesAt topRows
  rw [List.filter_filterMap, List.filterMap_filter]
  refine List.filterMap_congr fun n _ => ?_
  cases m.types[n]? with
  | none => rfl
  | some type => cases hnested : type.isNested <;> simp [Option.filter, hnested]

theorem walk_typesAt {rows yielded : List Nat} (h : Walk m.rowsIn rows yielded)
    (hrows : rows ⊆ List.range m.types.size) :
    Walk m.listedIn (m.typesAt rows) (m.typesAt yielded) := by
  induction h with
  | done => exact .done
  | @step n rows yielded _ ih =>
    have hlt : n < m.types.size := List.mem_range.mp (hrows List.mem_cons_self)
    have hn : m.types[n]? = some m.types[n] := Array.getElem?_eq_getElem hlt
    have hrest : rows ++ m.rowsIn n ⊆ List.range m.types.size :=
      List.append_subset.mpr ⟨fun k hk => hrows (List.mem_cons_of_mem n hk), rowsIn_subset n⟩
    have hwalk := ih hrest
    have hcons : ∀ rows, m.typesAt (n :: rows) = m.types[n] :: m.typesAt rows := fun rows =>
      List.filterMap_cons_some hn
    rw [hcons, hcons]
    refine .step ?_
    rwa [typesAt, List.filterMap_append, ← typesAt, ← typesAt, typesAt_rowsIn hn] at hwalk

theorem allTypes_eq_of_rows {rows : List Nat} (h : Walk m.rowsIn m.topRows rows) :
    m.allTypes = m.typesAt rows := by
  have hwalk := walk_typesAt h (List.filter_subset_self _)
  rw [typesAt_topRows] at hwalk
  exact allTypes_eq_of_walk hwalk

end CilWeave.Module
