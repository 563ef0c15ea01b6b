import CilWeave.Proofs.StackDepth.Arrival

/-
What the worklist of the stack analysis knows.

A `DepthMap` only ever learns: a recorded depth stays, and a position that is
recorded for the first time becomes pending. `recordAll` is the one operation
behind the edges of an instruction and the entries of a body; it is refused
exactly where a site lies outside the code or was recorded with another depth.
`Explored` is the invariant of the loop: what is recorded is where control can
come, and everything that leads on from a position that is no longer pending is
recorded too.
-/

namespace CilWeave

namespace DepthMap

/-- The position is recorded with this depth. -/
def Knows (map : DepthMap) (p depth : Nat) : Prop := map.depths[p]? = some (some depth)

theorem Knows.unique {map : DepthMap} {p d d' : Nat} (h : map.Knows p d) (h' : map.Knows p d') :
    d = d' := by
  unfold Knows at h h'
  rw [h] at h'
  cases h'; rfl

/-- How many positions are still to be visited at most: the pending ones and those
that were never recorded. -/
def todo (map : DepthMap) : Nat :=
  map.pending.length + map.depths.toList.countP Option.isNone

theorem countP_set_some {d : Nat} : ∀ {xs : List (Option Nat)} {p : Nat}, xs[p]? = some none →
    (xs.set p (some d)).countP Option.isNone + 1 = xs.countP Option.isNone
  | [], p, h => by simp at h
  | x :: xs, 0, h => by simp at h; subst h; simp
  | x :: xs, p + 1, h => by
    have ih : (xs.set p (some d)).countP Option.isNone + 1 = xs.countP Option.isNone :=
      countP_set_some (by simpa using h)
    rw [List.set_cons_succ, List.countP_cons, List.countP_cons]
    omega

/-! ## One record -/

/-- What it means that `map'` was made from `map` by recording some sites. -/
structure Grows (map map' : DepthMap) (sites : List (Nat × Nat)) : Prop where
  size : map'.depths.size = map.depths.size
  todo : map'.todo = map.todo
  keeps : ∀ p d, map.Knows p d → map'.Knows p d
  learns : ∀ p d, (p, d) ∈ sites → map'.Knows p d
  only : ∀ p d, map'.Knows p d → map.Knows p d ∨ (p, d) ∈ sites ∧ p ∈ map'.pending
  pending : ∀ p ∈ map.pending, p ∈ map'.pending
  fresh : ∀ p ∈ map'.pending, p ∈ map.pending ∨ ∃ d, map'.Knows p d

theorem Grows.nil (map : DepthMap) : Grows map map [] where
  size := rfl
  todo := rfl
  keeps _ _ h := h
  learns _ _ h := by simp at h
  only _ _ h := .inl h
  pending _ h := h
  fresh _ h := .inl h

theorem Grows.trans {a b c : DepthMap} {xs ys : List (Nat × Nat)} (hab : Grows a b xs)
    (hbc : Grows b c ys) : Grows a c (xs ++ ys) where
  size := hbc.size.trans hab.size
  todo := hbc.todo.trans hab.todo
  keeps p d h := hbc.keeps p d (hab.keeps p d h)
  learns p d h := by
    rcases List.mem_append.mp h with h | h
    · exact hbc.keeps p d (hab.learns p d h)
    · exact hbc.learns p d h
  only p d h := by
    rcases hbc.only p d h with h | ⟨h, hp⟩
    · rcases hab.only p d h with h | ⟨h, hp⟩
      · exact .inl h
      · exact .inr ⟨List.mem_append_left _ h, hbc.pending p hp⟩
    · exact .inr ⟨List.mem_append_right _ h, hp⟩
  pending p h := hbc.pending p (hab.pending p h)
  fresh p h := by
    rcases hbc.fresh p h with h | h
    · rcases hab.fresh p h with h | ⟨d, h⟩
      · exact .inl h
      · exact .inr ⟨d, hbc.keeps p d h⟩
    · exact .inr h

theorem grows_of_record {map map' : DepthMap} {p d : Nat} (h : map.record p d = .ok map') :
    Grows map map' [(p, d)] := by
  unfold record at h
  split at h
  · cases h
  · rename_i hp
    cases h
    have hlt : p < map.depths.size := by
      rcases Nat.lt_or_ge p map.depths.size with hlt | hge
      · exact hlt
      · rw [Array.getElem?_eq_none hge] at hp; cases hp
    have hself : Knows ⟨map.depths.setIfInBounds p (some d), p :: map.pending⟩ p d := by
      simp [Knows, hlt]
    have hother : ∀ q e, q ≠ p →
        (Knows ⟨map.depths.setIfInBounds p (some d), p :: map.pending⟩ q e ↔ map.Knows q e) := by
      intro q e hq
      simp [Knows, Ne.symm hq]
    have hnew : ∀ e, ¬ map.Knows p e := by
      intro e he
      unfold Knows at he
      rw [hp] at he; cases he
    -- The depth fills a free entry, so one free entry is traded for one that is pending.
    refine ⟨by simp, ?_, ?_, ?_, ?_, ?_, ?_⟩
    · have hc : (map.depths.toList.set p (some d)).countP Option.isNone + 1
          = map.depths.toList.countP Option.isNone := countP_set_some (by simpa using hp)
      simp only [todo, Array.toList_setIfInBounds, List.length_cons]
      omega
    · intro q e he
      by_cases hq : q = p
      · subst hq; exact absurd he (hnew e)
      · exact (hother q e hq).mpr he
    · intro q e he
      obtain ⟨rfl, rfl⟩ := by simpa using he
      exact hself
    · intro q e he
      by_cases hq : q = p
      · subst hq
        have := he.unique hself
        subst this
        exact .inr ⟨by simp, by simp⟩
      · exact .inl ((hother q e hq).mp he)
    · intro q hq
      exact List.mem_cons_of_mem p hq
    · intro q hq
      rcases List.mem_cons.mp hq with rfl | hq
      · exact .inr ⟨d, hself⟩
      · exact .inl hq
  -- The depth was there before, and the map stays as it is.
  · rename_i expected hp
    split at h
    · rename_i heq
      subst heq
      cases h
      refine ⟨rfl, rfl, fun _ _ h => h, ?_, fun _ _ h => .inl h, fun _ h => h, fun _ h => .inl h⟩
      intro q e he
      obtain ⟨rfl, rfl⟩ := by simpa using he
      exact hp
    · cases h

theorem refused_of_record {map : DepthMap} {p d : Nat} {e : Error}
    (h : map.record p d = .error e) :
    map.depths.size ≤ p ∨ ∃ d', d' ≠ d ∧ map.Knows p d' := by
  unfold record at h
  split at h
  · rename_i hp
    exact .inl (Array.getElem?_eq_none_iff.mp hp)
  · cases h
  · rename_i expected hp
    split at h
    · cases h
    · rename_i hne
      exact .inr ⟨expected, hne, hp⟩

/-! ## Many records -/

/-- Control arrives at each of some positions with a depth; nothing if one of them is
refused. -/
def recordAll : List (Nat × Nat) → DepthMap → Option DepthMap
  | [], map => some map
  | (p, d) :: rest, map =>
    match map.record p d with
    | .ok map => recordAll rest map
    | .error _ => none

theorem grows_of_recordAll : ∀ {sites : List (Nat × Nat)} {map map' : DepthMap},
    recordAll sites map = some map' → Grows map map' sites
  | [], map, map', h => by
    cases h; exact .nil map
  | (p, d) :: rest, map, map', h => by
    simp only [recordAll] at h
    split at h
    · rename_i next hr
      exact (grows_of_record hr).trans (grows_of_recordAll h)
    · cases h

/-- A site is only refused if it lies outside the code, or if control also arrives
there with another depth. -/
theorem refused_of_recordAll : ∀ {sites : List (Nat × Nat)} {map : DepthMap},
    recordAll sites map = none → ∃ s ∈ sites, map.depths.size ≤ s.1 ∨
      ∃ d', d' ≠ s.2 ∧ (map.Knows s.1 d' ∨ (s.1, d') ∈ sites)
  | [], map, h => by cases h
  | (p, d) :: rest, map, h => by
    simp only [recordAll] at h
    split at h
    · rename_i next hr
      have hg := grows_of_record hr
      obtain ⟨s, hs, hbad⟩ := refused_of_recordAll h
      refine ⟨s, List.mem_cons_of_mem _ hs, ?_⟩
      rcases hbad with hout | ⟨d', hne, hk | hk⟩
      · exact .inl (hg.size ▸ hout)
      · rcases hg.only _ _ hk with hk | ⟨hk, -⟩
        · exact .inr ⟨d', hne, .inl hk⟩
        · exact .inr ⟨d', hne, .inr (List.mem_append_left rest hk)⟩
      · exact .inr ⟨d', hne, .inr (List.mem_cons_of_mem _ hk)⟩
    · rename_i hr
      refine ⟨(p, d), by simp, ?_⟩
      rcases refused_of_record hr with hout | ⟨d', hne, hk⟩
      · exact .inl hout
      · exact .inr ⟨d', hne, .inl hk⟩

end DepthMap

namespace MethodBody

/-! ## The records of the analysis -/

theorem toOption_recordAt {b : MethodBody} {map : DepthMap} (id : InstrId) (d : Nat)
    (hsize : map.depths.size = b.code.ids.length) :
    (recordAt b.code.positions map id d).toOption = (map.record (b.placeOf id) d).toOption := by
  unfold recordAt positionOf
  by_cases hid : id ∈ b.code.ids
  · obtain ⟨p, hp⟩ := List.mem_iff_getElem?.mp hid
    rw [InstructionList.positions_getElem?.mpr hp, placeOf_eq hp]
  · have hout : b.placeOf id = b.code.ids.length := by
      rcases Nat.lt_or_ge (b.placeOf id) b.code.ids.length with hlt | hge
      · exact absurd (List.mem_of_getElem? (ids_placeOf hlt)) hid
      · unfold placeOf at hge ⊢
        cases hp : b.code.position? id with
        | none => rfl
        | some p =>
          exact absurd (List.mem_of_getElem? (InstructionList.position?_eq_some.mp hp)) hid
    have hnone : map.depths[b.placeOf id]? = none := by
      rw [hout, ← hsize]; exact Array.getElem?_eq_none (Nat.le_refl _)
    simp only [DepthMap.record, hnone]
    split
    · rename_i heq
      split at heq
      · rename_i p hp
        exact absurd (List.mem_of_getElem? (InstructionList.positions_getElem?.mp hp)) hid
      · cases heq; rfl
    · rename_i p heq
      split at heq
      · rename_i q hq
        exact absurd (List.mem_of_getElem? (InstructionList.positions_getElem?.mp hq)) hid
      · cases heq

theorem recordAt_cases {b : MethodBody} {map : DepthMap} (id : InstrId) (d : Nat)
    (hsize : map.depths.size = b.code.ids.length) :
    (∃ next, recordAt b.code.positions map id d = .ok next
        ∧ map.record (b.placeOf id) d = .ok next) ∨
      ∃ e e', recordAt b.code.positions map id d = .error e
        ∧ map.record (b.placeOf id) d = .error e' := by
  have h := toOption_recordAt (b := b) id d hsize
  cases hat : recordAt b.code.positions map id d with
  | ok next =>
    cases hr : map.record (b.placeOf id) d with
    | ok next' => rw [hat, hr] at h; cases h; exact .inl ⟨next, rfl, rfl⟩
    | error e' => rw [hat, hr] at h; cases h
  | error e =>
    cases hr : map.record (b.placeOf id) d with
    | ok next' => rw [hat, hr] at h; cases h
    | error e' => exact .inr ⟨e, e', rfl, rfl⟩

theorem toOption_recordEdges {b : MethodBody} {p d : Nat} : ∀ {edges : List Edge} {map : DepthMap},
    map.depths.size = b.code.ids.length →
    (recordEdges b.code.positions p d edges map).toOption
      = DepthMap.recordAll (edges.map fun e => (b.edgePlace p e, d)) map
  | [], map, _ => rfl
  | .next :: rest, map, hsize => by
    simp only [recordEdges, List.map_cons, DepthMap.recordAll, edgePlace]
    cases hr : map.record (p + 1) d with
    | error e => rfl
    | ok next => exact toOption_recordEdges ((DepthMap.grows_of_record hr).size.trans hsize)
  | .target id :: rest, map, hsize => by
    simp only [recordEdges, List.map_cons, DepthMap.recordAll, edgePlace]
    rcases recordAt_cases id d hsize with ⟨next, hat, hr⟩ | ⟨e, e', hat, hr⟩
    · rw [hat, hr]
      exact toOption_recordEdges ((DepthMap.grows_of_record hr).size.trans hsize)
    · rw [hat, hr]; rfl

theorem toOption_recordHandlers {b : MethodBody} : ∀ {handlers : List Handler} {map : DepthMap},
    map.depths.size = b.code.ids.length →
    (recordHandlers b.code.positions handlers map).toOption
      = DepthMap.recordAll (handlers.flatMap b.handlerSites) map
  | [], map, _ => rfl
  | h :: rest, map, hsize => by
    simp only [recordHandlers, List.flatMap_cons, handlerSites, List.cons_append,
      DepthMap.recordAll]
    rcases recordAt_cases h.handlerStart (if h.pushesException then 1 else 0) hsize with
      ⟨next, hat, hr⟩ | ⟨e, e', hat, hr⟩
    · rw [hat, hr]
      have hnext := (DepthMap.grows_of_record hr).size.trans hsize
      cases h.filterStart with
      | none => exact toOption_recordHandlers hnext
      | some id =>
        simp only [Option.toList_some, List.map_cons, List.map_nil, List.cons_append,
          List.nil_append, DepthMap.recordAll]
        rcases recordAt_cases id 1 hnext with ⟨next', hat, hr⟩ | ⟨e, e', hat, hr⟩
        · rw [hat, hr]
          exact toOption_recordHandlers ((DepthMap.grows_of_record hr).size.trans hnext)
        · rw [hat, hr]; rfl
    · rw [hat, hr]; rfl

end MethodBody

end CilWeave
