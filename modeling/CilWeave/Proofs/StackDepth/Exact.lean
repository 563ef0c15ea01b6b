import CilWeave.Proofs.StackDepth.Worklist

/-
The stack analysis is exact.

The loop of the analysis visits each position once, while control may take any of
infinitely many paths. `Explored` joins the two: once no position is pending, the
recorded depths are exactly those control can arrive with (`Explored.complete`).
The main statement, `computeMaxStack_exact`, says that the analysis accepts a body
if and only if no path goes wrong and every depth fits its field, and that the
answer is the greatest depth there is.
-/

namespace CilWeave

namespace MethodBody

variable {b : MethodBody} {refs : ReferenceTable} {returnType : TypeSig}

theorem Executes.unique {id : InstrId} {depth after after' : Nat} {i i' : Instruction}
    (h : b.Executes refs returnType id depth i after)
    (h' : b.Executes refs returnType id depth i' after') : i = i' ∧ after = after' := by
  obtain ⟨hi, pops, pushes, he, -, rfl⟩ := h
  obtain ⟨hi', pops', pushes', he', -, rfl⟩ := h'
  rw [hi] at hi'
  cases hi'
  rw [he] at he'
  cases he'
  exact ⟨rfl, rfl⟩

/-- Everything that leads on from a position is recorded, and its depths are counted. -/
def Followed (b : MethodBody) (refs : ReferenceTable) (returnType : TypeSig) (map : DepthMap)
    (deepest p depth : Nat) : Prop :=
  ∃ id i after, b.code.ids[p]? = some id ∧ b.Executes refs returnType id depth i after ∧
    (∀ q d, (q, d) ∈ b.edgeSites p i after → map.Knows q d) ∧ depth ≤ deepest ∧ after ≤ deepest

/-- What holds whenever the loop of the analysis starts over. -/
structure Explored (b : MethodBody) (refs : ReferenceTable) (returnType : TypeSig)
    (map : DepthMap) (deepest : Nat) : Prop where
  size : map.depths.size = b.code.ids.length
  known : ∀ p ∈ map.pending, ∃ d, map.Knows p d
  arrives : ∀ p d, map.Knows p d → b.ArrivesAt refs returnType p d
  entered : ∀ p d, (p, d) ∈ b.entrySites → map.Knows p d
  followed : ∀ p d, map.Knows p d → p ∈ map.pending ∨
    b.Followed refs returnType map deepest p d
  occurs : b.Occurs refs returnType deepest

/-! ## Refusals -/

theorem ArrivesAt.unique (hb : b.Balanced refs returnType) {p d d' : Nat}
    (h : b.ArrivesAt refs returnType p d) (h' : b.ArrivesAt refs returnType p d') : d = d' := by
  obtain ⟨id, hid, ha⟩ := h
  obtain ⟨id', hid', ha'⟩ := h'
  rw [hid] at hid'
  cases hid'
  exact hb.agree id d d' ha ha'

/-- In a balanced body no site is refused at which control does arrive. -/
theorem recordAll_ne_none {sites : List (Nat × Nat)} {map : DepthMap}
    (hb : b.Balanced refs returnType)
    (hknown : ∀ p d, map.Knows p d → b.ArrivesAt refs returnType p d)
    (hsites : ∀ p d, (p, d) ∈ sites → p < map.depths.size ∧ b.ArrivesAt refs returnType p d) :
    DepthMap.recordAll sites map ≠ none := by
  intro hnone
  obtain ⟨⟨p, d⟩, hs, hbad⟩ := DepthMap.refused_of_recordAll hnone
  obtain ⟨hlt, harr⟩ := hsites p d hs
  rcases hbad with hout | ⟨d', hne, hk | hk⟩
  · simp only at hout; omega
  · exact hne ((hknown p d' hk).unique hb harr)
  · exact hne ((hsites p d' hk).2.unique hb harr)

theorem Balanced.placeOf_lt (hb : b.Balanced refs returnType) {id : InstrId} {d : Nat}
    (h : b.Arrives refs returnType id d) : b.placeOf id < b.code.ids.length := by
  obtain ⟨p, hp⟩ := List.mem_iff_getElem?.mp
    (InstructionList.mem_ids.mpr (hb.attached id d h))
  rw [placeOf_eq hp]
  exact (List.getElem?_eq_some_iff.mp hp).1

theorem Balanced.entrySites_lt (hb : b.Balanced refs returnType) (hne : b.code.ids ≠ [])
    {p d : Nat} (h : (p, d) ∈ b.entrySites) : p < b.code.ids.length := by
  simp only [entrySites, handlerSites, List.mem_cons, List.mem_flatMap, List.mem_map,
    Prod.mk.injEq] at h
  rcases h with ⟨rfl, rfl⟩ | ⟨handler, hh, ⟨rfl, rfl⟩ | ⟨id, hid, rfl, rfl⟩⟩
  · exact List.length_pos_iff.mpr hne
  · exact hb.placeOf_lt (.entry (.handler hh))
  · exact hb.placeOf_lt (.entry (.filter hh (Option.mem_toList.mp hid)))

theorem Balanced.edgeSites_lt (hb : b.Balanced refs returnType) {id : InstrId} {i : Instruction}
    {p q depth d after : Nat} (hid : b.code.ids[p]? = some id)
    (ha : b.Arrives refs returnType id depth) (he : b.Executes refs returnType id depth i after)
    (h : (q, d) ∈ b.edgeSites p i after) : q < b.code.ids.length := by
  obtain ⟨e, hmem, heq⟩ := List.mem_map.mp h
  cases heq
  cases e with
  | next =>
    obtain ⟨id', hnext⟩ := hb.ends id depth i ha he.1 (next_mem_edges.mp hmem)
    rw [InstructionList.next?_of_getElem? hid] at hnext
    exact (List.getElem?_eq_some_iff.mp hnext).1
  | target id' =>
    obtain ⟨hj, ht⟩ := target_mem_edges.mp hmem
    exact hb.placeOf_lt (.target ha he hj ht)

/-! ## The loop -/

theorem Explored.visit {depths : Array (Option Nat)} {rest : List Nat} {map : DepthMap}
    {deepest p depth after : Nat} {id : InstrId} {i : Instruction}
    (hx : b.Explored refs returnType ⟨depths, p :: rest⟩ deepest)
    (hk : DepthMap.Knows ⟨depths, p :: rest⟩ p depth) (hid : b.code.ids[p]? = some id)
    (he : b.Executes refs returnType id depth i after)
    (hg : DepthMap.Grows ⟨depths, rest⟩ map (b.edgeSites p i after)) :
    b.Explored refs returnType map (max (max deepest depth) after) := by
  have ha : b.Arrives refs returnType id depth := by
    obtain ⟨id', hid', ha⟩ := hx.arrives p depth hk
    rw [hid] at hid'
    cases hid'
    exact ha
  have hsize : map.depths.size = b.code.ids.length := hg.size.trans hx.size
  have hlt : ∀ q d, map.Knows q d → q < b.code.ids.length := by
    intro q d h
    rw [← hsize]
    exact (Array.getElem?_eq_some_iff.mp h).1
  refine ⟨hsize, ?_, ?_, ?_, ?_, ?_⟩
  -- What is pending is known: it was before, or the visit recorded it.
  · intro q hq
    rcases hg.fresh q hq with hq | h
    · obtain ⟨d, hd⟩ := hx.known q (List.mem_cons_of_mem p hq)
      exact ⟨d, hg.keeps q d hd⟩
    · exact h
  · intro q d h
    rcases hg.only q d h with h' | ⟨h', -⟩
    · exact hx.arrives q d h'
    · exact arrivesAt_of_mem_edgeSites hid ha he h' (hlt q d h)
  · intro q d h
    exact hg.keeps q d (hx.entered q d h)
  -- A known position is still pending or was followed, and `p` was followed just now.
  · intro q d h
    rcases hg.only q d h with h' | ⟨-, hp⟩
    · by_cases hqp : q = p
      · subst hqp
        cases DepthMap.Knows.unique hk h'
        exact .inr ⟨id, i, after, hid, he, hg.learns, by omega, by omega⟩
      · rcases hx.followed q d h' with hpend | ⟨id', i', after', hid', he', hsites, h1, h2⟩
        · exact .inl (hg.pending q ((List.mem_cons.mp hpend).resolve_left hqp))
        · exact .inr ⟨id', i', after', hid', he', fun r e hr => hg.keeps r e (hsites r e hr),
            by omega, by omega⟩
    · exact .inl hp
  -- The new maximum is one of the three depths, and each of them occurs.
  · rcases Nat.le_total (max deepest depth) after with hle | hle
    · rw [Nat.max_eq_right hle]
      exact ⟨id, depth, ha, .inr ⟨i, he⟩⟩
    · rw [Nat.max_eq_left hle]
      rcases Nat.le_total deepest depth with hle' | hle'
      · rw [Nat.max_eq_right hle']
        exact ⟨id, depth, ha, .inl rfl⟩
      · rw [Nat.max_eq_left hle']
        exact hx.occurs

/-- The loop ends with nothing pending, or in an error that shows the body unbalanced. -/
theorem depthLoop_cases : ∀ {steps : Nat} {map : DepthMap} {deepest : Nat},
    b.Explored refs returnType map deepest → map.todo < steps →
    (∃ deepest' map', depthLoop b.code.instructions.toArray b.code.positions refs returnType
        steps map deepest = .ok deepest' ∧ b.Explored refs returnType map' deepest' ∧
        map'.pending = []) ∨
      (∃ e, depthLoop b.code.instructions.toArray b.code.positions refs returnType steps map
        deepest = .error e) ∧ ¬ b.Balanced refs returnType
  | 0, _, _, _, hs => by omega
  | steps + 1, ⟨depths, []⟩, deepest, hx, _ => .inl ⟨deepest, ⟨depths, []⟩, rfl, hx, rfl⟩
  | steps + 1, ⟨depths, p :: rest⟩, deepest, hx, hs => by
    obtain ⟨depth, hk⟩ := hx.known p (by simp)
    obtain ⟨id, hid, ha⟩ := hx.arrives p depth hk
    obtain ⟨i, hi⟩ := InstructionList.get?_of_mem (List.mem_of_getElem? hid)
    have hcode : b.code.instructions.toArray[p]? = some i := by
      rw [List.getElem?_toArray]
      exact InstructionList.getElem?_instructions.mpr ⟨id, hid, hi⟩
    have hdepth : (depths[p]?.getD none).getD 0 = depth := by
      unfold DepthMap.Knows at hk
      simp only at hk
      rw [hk]; rfl
    simp only [depthLoop, hcode, hdepth]
    cases heff : i.stackEffect refs returnType with
    | error e =>
      refine .inr ⟨⟨e, rfl⟩, fun hb => ?_⟩
      obtain ⟨effect, h⟩ := hb.defined id depth i ha hi
      rw [heff] at h; cases h
    | ok effect =>
      obtain ⟨pops, pushes⟩ := effect
      by_cases hpops : depth < pops
      · refine .inr ⟨⟨_, if_pos hpops⟩, fun hb => ?_⟩
        have := hb.fed id depth i pops pushes ha hi heff
        omega
      · have he : b.Executes refs returnType id depth i (depth - pops + pushes) :=
          ⟨hi, pops, pushes, heff, by omega, rfl⟩
        simp only [if_neg hpops]
        have hrec : (recordEdges b.code.positions p (i.edgeDepth (depth - pops + pushes)) i.edges
            ⟨depths, rest⟩).toOption
              = DepthMap.recordAll (b.edgeSites p i (depth - pops + pushes)) ⟨depths, rest⟩ :=
          toOption_recordEdges hx.size
        have hknown : ∀ q d, DepthMap.Knows ⟨depths, rest⟩ q d →
            b.ArrivesAt refs returnType q d := hx.arrives
        cases hmap : recordEdges b.code.positions p (i.edgeDepth (depth - pops + pushes)) i.edges
            ⟨depths, rest⟩ with
        | error e =>
          rw [hmap] at hrec
          -- The edges of a balanced body are never refused, so this one is not balanced.
          refine .inr ⟨⟨e, rfl⟩, fun hb => ?_⟩
          refine recordAll_ne_none hb hknown ?_ hrec.symm
          intro q d hq
          have hlt := hb.edgeSites_lt hid ha he hq
          exact ⟨hx.size ▸ hlt, arrivesAt_of_mem_edgeSites hid ha he hq hlt⟩
        | ok map =>
          rw [hmap] at hrec
          have hg := DepthMap.grows_of_recordAll hrec.symm
          refine depthLoop_cases (hx.visit hk hid he hg) ?_
          have htodo := hg.todo
          simp only [DepthMap.todo, List.length_cons] at hs htodo ⊢
          omega

/-! ## The start and the end of the loop -/

/-- The map before anything is recorded. -/
def blank (b : MethodBody) : DepthMap :=
  ⟨Array.replicate b.code.instructions.toArray.size none, []⟩

theorem not_knows_blank (p d : Nat) : ¬ b.blank.Knows p d := by
  unfold DepthMap.Knows blank
  simp only [Array.getElem?_replicate]
  split <;> simp

theorem size_blank : b.blank.depths.size = b.code.ids.length := by
  simp [blank, InstructionList.length_instructions]

theorem todo_blank : b.blank.todo = b.code.instructions.toArray.size := by
  simp [DepthMap.todo, blank, List.countP_replicate]

theorem arrives_first (hne : b.code.ids ≠ []) :
    ∃ id, b.Arrives refs returnType id 0 := by
  have hpos : 0 < b.code.ids.length := List.length_pos_iff.mpr hne
  refine ⟨b.code.ids[0], .entry (.first ?_)⟩
  rw [InstructionList.first?_eq, List.getElem?_eq_getElem hpos]

theorem explored_start {map : DepthMap} (hne : b.code.ids ≠ [])
    (hg : DepthMap.Grows b.blank map b.entrySites) : b.Explored refs returnType map 0 := by
  have hsize : map.depths.size = b.code.ids.length := hg.size.trans size_blank
  refine ⟨hsize, ?_, ?_, hg.learns, ?_, ?_⟩
  · intro p hp
    rcases hg.fresh p hp with h | h
    · simp [blank] at h
    · exact h
  · intro p d h
    rcases hg.only p d h with h' | ⟨h', -⟩
    · exact absurd h' (not_knows_blank p d)
    · refine arrivesAt_of_mem_entrySites h' ?_
      rw [← hsize]
      exact (Array.getElem?_eq_some_iff.mp h).1
  · intro p d h
    rcases hg.only p d h with h' | ⟨-, hp⟩
    · exact absurd h' (not_knows_blank p d)
    · exact .inl hp
  · have hfirst : ∃ id, b.Arrives refs returnType id 0 := arrives_first hne
    obtain ⟨id, ha⟩ := hfirst
    exact ⟨id, 0, ha, .inl rfl⟩

theorem Explored.followed_of_done {map : DepthMap} {deepest p d : Nat}
    (hx : b.Explored refs returnType map deepest) (hdone : map.pending = [])
    (h : map.Knows p d) : b.Followed refs returnType map deepest p d := by
  rcases hx.followed p d h with hp | hf
  · rw [hdone] at hp; cases hp
  · exact hf

/-- With nothing pending the recorded depths are those control can arrive with. -/
theorem Explored.complete {map : DepthMap} {deepest : Nat}
    (hx : b.Explored refs returnType map deepest) (hdone : map.pending = []) {id : InstrId}
    {d : Nat} (ha : b.Arrives refs returnType id d) :
    ∃ p, b.code.ids[p]? = some id ∧ map.Knows p d := by
  have hplace : ∀ {id : InstrId} {d : Nat}, map.Knows (b.placeOf id) d →
      b.code.ids[b.placeOf id]? = some id := by
    intro id d h
    apply ids_placeOf
    rw [← hx.size]
    exact (Array.getElem?_eq_some_iff.mp h).1
  -- By induction on how control comes there: each edge of a followed position was recorded.
  induction ha with
  | @entry id d he =>
    have hk := hx.entered _ _ (mem_entrySites_of_entry he)
    exact ⟨_, hplace hk, hk⟩
  | @next id id' d after i _ he hgo hnext ih =>
    obtain ⟨p, hp, hk⟩ := ih
    obtain ⟨_, _, _, hp', he', hsites, -, -⟩ := hx.followed_of_done hdone hk
    rw [hp] at hp'
    cases hp'
    obtain ⟨rfl, rfl⟩ := he.unique he'
    rw [InstructionList.next?_of_getElem? hp] at hnext
    refine ⟨p + 1, hnext, hsites _ _ (List.mem_map.mpr ⟨.next, next_mem_edges.mpr hgo, ?_⟩)⟩
    rw [edgeDepth_of_goesOn hgo]; rfl
  | @target id id' d after i _ he hj ht ih =>
    obtain ⟨p, hp, hk⟩ := ih
    obtain ⟨_, _, _, hp', he', hsites, -, -⟩ := hx.followed_of_done hdone hk
    rw [hp] at hp'
    cases hp'
    obtain ⟨rfl, rfl⟩ := he.unique he'
    have hk' := hsites _ _ (List.mem_map.mpr
      ⟨.target id', target_mem_edges.mpr ⟨hj, ht⟩, rfl⟩)
    rw [edgeDepth_eq] at hk'
    exact ⟨_, hplace hk', hk'⟩

/-- The state of the loop at an instruction control can come to, with nothing pending. -/
theorem Explored.executes {map : DepthMap} {deepest : Nat}
    (hx : b.Explored refs returnType map deepest) (hdone : map.pending = []) {id : InstrId}
    {d : Nat} {i : Instruction} (ha : b.Arrives refs returnType id d)
    (hi : b.code.get? id = some i) :
    ∃ p after, b.code.ids[p]? = some id ∧ b.Executes refs returnType id d i after ∧
      (∀ q e, (q, e) ∈ b.edgeSites p i after → map.Knows q e) ∧ d ≤ deepest ∧
      after ≤ deepest := by
  obtain ⟨p, hp, hk⟩ := hx.complete hdone ha
  obtain ⟨_, _, after, hp', he, hsites, h1, h2⟩ := hx.followed_of_done hdone hk
  rw [hp] at hp'
  cases hp'
  have hi' := he.1
  rw [hi] at hi'
  cases hi'
  exact ⟨p, after, hp, he, hsites, h1, h2⟩

theorem Explored.balanced {map : DepthMap} {deepest : Nat}
    (hx : b.Explored refs returnType map deepest) (hdone : map.pending = []) :
    b.Balanced refs returnType where
  attached id d ha := by
    obtain ⟨p, hp, -⟩ := hx.complete hdone ha
    exact InstructionList.mem_ids.mp (List.mem_of_getElem? hp)
  defined id d i ha hi := by
    obtain ⟨_, _, _, he, -⟩ := hx.executes hdone ha hi
    obtain ⟨-, pops, pushes, heff, -⟩ := he
    exact ⟨_, heff⟩
  fed id d i pops pushes ha hi heff := by
    obtain ⟨_, _, _, he, -⟩ := hx.executes hdone ha hi
    obtain ⟨-, pops', pushes', heff', hle, -⟩ := he
    rw [heff] at heff'
    cases heff'
    exact hle
  ends id d i ha hi hgo := by
    obtain ⟨p, after, hp, -, hsites, -, -⟩ := hx.executes hdone ha hi
    have hk := hsites _ _ (List.mem_map.mpr ⟨.next, next_mem_edges.mpr hgo, rfl⟩)
    obtain ⟨id', hid', -⟩ := hx.arrives _ _ hk
    exact ⟨id', by rw [InstructionList.next?_of_getElem? hp]; exact hid'⟩
  agree id d d' ha ha' := by
    obtain ⟨p, hp, hk⟩ := hx.complete hdone ha
    obtain ⟨p', hp', hk'⟩ := hx.complete hdone ha'
    cases InstructionList.getElem?_inj_of_nodup b.code.nodup_ids hp hp'
    exact hk.unique hk'

theorem Explored.greatest {map : DepthMap} {deepest k : Nat}
    (hx : b.Explored refs returnType map deepest) (hdone : map.pending = [])
    (hk : b.Occurs refs returnType k) : k ≤ deepest := by
  obtain ⟨id, d, ha, rfl | ⟨i, he⟩⟩ := hk
  · obtain ⟨i, hi⟩ := InstructionList.contains_iff.mp
      ((hx.balanced hdone).attached id k ha)
    obtain ⟨_, _, _, _, _, h, -⟩ := hx.executes hdone ha hi
    exact h
  · obtain ⟨_, after, _, he', _, -, h⟩ := hx.executes hdone ha he.1
    obtain ⟨-, rfl⟩ := he.unique he'
    exact h

/-! ## The answer of the analysis -/

/-- The entries of a body are recorded, or one of them shows the body unbalanced. -/
theorem recordHandlers_cases (hne : b.code.ids ≠ []) :
    ∃ first, b.blank.record 0 0 = .ok first ∧
      ((∃ map, recordHandlers b.code.positions b.handlers first = .ok map ∧
          DepthMap.Grows b.blank map b.entrySites) ∨
        (∃ e, recordHandlers b.code.positions b.handlers first = .error e) ∧
          ¬ b.Balanced refs returnType) := by
  have hpos : 0 < b.code.ids.length := List.length_pos_iff.mpr hne
  obtain ⟨first, hfirst⟩ : ∃ first, b.blank.record 0 0 = .ok first := by
    cases hr : b.blank.record 0 0 with
    | ok first => exact ⟨first, rfl⟩
    | error e =>
      rcases DepthMap.refused_of_record hr with hout | ⟨d, -, hk⟩
      · rw [size_blank] at hout; omega
      · exact absurd hk (not_knows_blank 0 d)
  have hall : DepthMap.recordAll b.entrySites b.blank
      = DepthMap.recordAll (b.handlers.flatMap b.handlerSites) first := by
    simp only [entrySites, DepthMap.recordAll, hfirst]
  have hrec : (recordHandlers b.code.positions b.handlers first).toOption
      = DepthMap.recordAll b.entrySites b.blank := by
    rw [hall]
    exact toOption_recordHandlers ((DepthMap.grows_of_record hfirst).size.trans size_blank)
  refine ⟨first, hfirst, ?_⟩
  cases hmap : recordHandlers b.code.positions b.handlers first with
  | ok map =>
    rw [hmap] at hrec
    exact .inl ⟨map, rfl, DepthMap.grows_of_recordAll hrec.symm⟩
  | error e =>
    rw [hmap] at hrec
    refine .inr ⟨⟨e, rfl⟩, fun hb => ?_⟩
    refine recordAll_ne_none hb (fun p d h => absurd h (not_knows_blank p d)) ?_ hrec.symm
    intro p d h
    have hlt := hb.entrySites_lt hne h
    exact ⟨size_blank ▸ hlt, arrivesAt_of_mem_entrySites h hlt⟩

/-- The analysis has explored the whole body when it answers, and it refuses only a body
that is not balanced or too deep. -/
theorem computeMaxStack_cases (hne : b.code.ids ≠ []) :
    (∃ deepest map, b.Explored refs returnType map deepest ∧ map.pending = [] ∧
        b.computeMaxStack refs returnType = if deepest < UInt16.size
          then .ok (UInt16.ofNat deepest) else .error (.malformed .stackTooDeep)) ∨
      (∃ e, b.computeMaxStack refs returnType = .error e) ∧ ¬ b.Balanced refs returnType := by
  have hempty : ¬ b.code.isEmpty = true := fun h => hne (InstructionList.isEmpty_iff.mp h)
  obtain ⟨first, hfirst, hstart⟩ := recordHandlers_cases (b := b) hne
  have hblank : (DepthMap.mk (Array.replicate b.code.instructions.toArray.size none) []).record
      0 0 = .ok first := hfirst
  unfold computeMaxStack
  simp only [if_neg hempty, hblank]
  rcases hstart with ⟨map, hmap, hg⟩ | ⟨⟨e, he⟩, hb⟩
  · have htodo : map.todo < b.code.instructions.toArray.size + 1 := by
      rw [hg.todo, todo_blank]; omega
    rcases depthLoop_cases (explored_start hne hg) htodo with
      ⟨deepest, map', hloop, hx, hdone⟩ | ⟨⟨e, he⟩, hb⟩
    · refine .inl ⟨deepest, map', hx, hdone, ?_⟩
      simp only [hmap, hloop]
    · refine .inr ⟨⟨e, ?_⟩, hb⟩
      simp only [hmap, he]
  · refine .inr ⟨⟨e, ?_⟩, hb⟩
    simp only [he]

theorem computeMaxStack_eq_ok (hne : b.code.ids ≠ []) (m : UInt16) :
    b.computeMaxStack refs returnType = .ok m ↔
      b.Balanced refs returnType ∧ b.Occurs refs returnType m.toNat ∧
        ∀ k, b.Occurs refs returnType k → k ≤ m.toNat := by
  rcases computeMaxStack_cases hne with ⟨deepest, map, hx, hdone, hanswer⟩ | ⟨⟨e, he⟩, hb⟩
  · have hgreatest := fun k (hk : b.Occurs refs returnType k) => hx.greatest hdone hk
    rw [hanswer]
    constructor
    · intro h
      split at h
      · rename_i hlt
        cases h
        have hm : (UInt16.ofNat deepest).toNat = deepest := UInt16.toNat_ofNat_of_lt' hlt
        rw [hm]
        exact ⟨hx.balanced hdone, hx.occurs, hgreatest⟩
      · cases h
    · rintro ⟨-, hoccurs, hmax⟩
      have hm : m.toNat = deepest :=
        Nat.le_antisymm (hgreatest _ hoccurs) (hmax _ hx.occurs)
      have hlt : deepest < UInt16.size := hm ▸ m.toNat_lt
      rw [if_pos hlt, ← hm, UInt16.ofNat_toNat]
  · rw [he]
    constructor
    · intro h; cases h
    · rintro ⟨hbal, -⟩; exact absurd hbal hb

theorem exists_computeMaxStack_eq_ok (hne : b.code.ids ≠ []) :
    (∃ m, b.computeMaxStack refs returnType = .ok m) ↔
      b.Balanced refs returnType ∧ ∀ k, b.Occurs refs returnType k → k < UInt16.size := by
  constructor
  · rintro ⟨m, hm⟩
    obtain ⟨hb, -, hmax⟩ := (computeMaxStack_eq_ok hne m).mp hm
    exact ⟨hb, fun k hk => Nat.lt_of_le_of_lt (hmax k hk) m.toNat_lt⟩
  · rintro ⟨hb, hfits⟩
    rcases computeMaxStack_cases hne with ⟨deepest, map, hx, -, hanswer⟩ | ⟨-, hb'⟩
    · exact ⟨_, hanswer.trans (if_pos (hfits deepest hx.occurs))⟩
    · exact absurd hb hb'

/-! ## Bodies that run alike -/

/-- Control takes the ways through `b'` that it takes through `b`: the order and the handlers
are the same, and each instruction that has an effect in `b` has it in `b'` too. -/
structure RunsAlike (b : MethodBody) (refs : ReferenceTable) (b' : MethodBody)
    (refs' : ReferenceTable) (returnType : TypeSig) : Prop where
  ids : b'.code.ids = b.code.ids
  handlers : ∀ h, h ∈ b'.handlers ↔ h ∈ b.handlers
  instruction : ∀ id i, b.code.get? id = some i → ∃ i', b'.code.get? id = some i' ∧
    i'.op.flow = i.op.flow ∧ (∀ t, t ∈ i'.targets ↔ t ∈ i.targets) ∧
    ∀ effect, i.stackEffect refs returnType = .ok effect →
      i'.stackEffect refs' returnType = .ok effect

namespace RunsAlike

variable {b' : MethodBody} {refs' : ReferenceTable}

theorem entry_iff (h : RunsAlike b refs b' refs' returnType) {id : InstrId} {d : Nat} :
    Entry b' id d ↔ Entry b id d := by
  have hfirst : b'.code.first? = b.code.first? := by
    rw [InstructionList.first?_eq, InstructionList.first?_eq, h.ids]
  constructor
  · intro he
    cases he with
    | first hid => exact .first (hfirst ▸ hid)
    | handler hh => exact .handler ((h.handlers _).mp hh)
    | filter hh hid => exact .filter ((h.handlers _).mp hh) hid
  · intro he
    cases he with
    | first hid => exact .first (hfirst ▸ hid)
    | handler hh => exact .handler ((h.handlers _).mpr hh)
    | filter hh hid => exact .filter ((h.handlers _).mpr hh) hid

theorem next?_eq (h : RunsAlike b refs b' refs' returnType) {id id' : InstrId} :
    b'.code.next? id = some id' ↔ b.code.next? id = some id' := by
  rw [InstructionList.next?_eq_some, InstructionList.next?_eq_some, h.ids]

theorem executes (h : RunsAlike b refs b' refs' returnType) {id : InstrId} {d after : Nat}
    {i : Instruction} (he : b.Executes refs returnType id d i after) :
    ∃ i', b'.Executes refs' returnType id d i' after ∧ i'.op.flow = i.op.flow ∧
      ∀ t, t ∈ i'.targets ↔ t ∈ i.targets := by
  obtain ⟨hi, pops, pushes, heff, hle, rfl⟩ := he
  obtain ⟨i', hi', hflow, htargets, hok⟩ := h.instruction id i hi
  exact ⟨i', ⟨hi', pops, pushes, hok _ heff, hle, rfl⟩, hflow, htargets⟩

theorem arrives (h : RunsAlike b refs b' refs' returnType) {id : InstrId} {d : Nat}
    (ha : b.Arrives refs returnType id d) : b'.Arrives refs' returnType id d := by
  induction ha with
  | entry he => exact .entry (h.entry_iff.mpr he)
  | next _ he hgo hnext ih =>
    obtain ⟨i', he', hflow, -⟩ := h.executes he
    exact .next ih he' (hflow ▸ hgo) (h.next?_eq.mpr hnext)
  | target _ he hj ht ih =>
    obtain ⟨i', he', hflow, htargets⟩ := h.executes he
    rw [← hflow]
    exact .target ih he' (hflow ▸ hj) ((htargets _).mpr ht)

/-- Where every effect is defined in `b`, nothing is executed in `b'` that is not executed
in `b`. -/
theorem executes_of_balanced (h : RunsAlike b refs b' refs' returnType)
    (hb : b.Balanced refs returnType) {id : InstrId} {d after : Nat} {i' : Instruction}
    (ha : b.Arrives refs returnType id d) (he' : b'.Executes refs' returnType id d i' after) :
    ∃ i, b.Executes refs returnType id d i after ∧ i'.op.flow = i.op.flow ∧
      ∀ t, t ∈ i'.targets ↔ t ∈ i.targets := by
  obtain ⟨hi', pops, pushes, heff', hle, rfl⟩ := he'
  obtain ⟨i, hi⟩ := InstructionList.contains_iff.mp (hb.attached id d ha)
  obtain ⟨⟨p, q⟩, heff⟩ := hb.defined id d i ha hi
  obtain ⟨j, hj, hflow, htargets, hok⟩ := h.instruction id i hi
  rw [hi'] at hj
  cases hj
  rw [hok _ heff] at heff'
  cases heff'
  exact ⟨i, ⟨hi, pops, pushes, heff, hle, rfl⟩, hflow, htargets⟩

theorem arrives_of_balanced (h : RunsAlike b refs b' refs' returnType)
    (hb : b.Balanced refs returnType) {id : InstrId} {d : Nat}
    (ha' : b'.Arrives refs' returnType id d) : b.Arrives refs returnType id d := by
  induction ha' with
  | entry he => exact .entry (h.entry_iff.mp he)
  | next _ he' hgo hnext ih =>
    obtain ⟨i, he, hflow, -⟩ := h.executes_of_balanced hb ih he'
    exact .next ih he (hflow ▸ hgo) (h.next?_eq.mp hnext)
  | target _ he' hj ht ih =>
    obtain ⟨i, he, hflow, htargets⟩ := h.executes_of_balanced hb ih he'
    rw [hflow]
    exact .target ih he (hflow ▸ hj) ((htargets _).mp ht)

theorem occurs_iff (h : RunsAlike b refs b' refs' returnType) (hb : b.Balanced refs returnType)
    {k : Nat} : b'.Occurs refs' returnType k ↔ b.Occurs refs returnType k := by
  constructor
  · rintro ⟨id, d, ha', hk⟩
    have ha := h.arrives_of_balanced hb ha'
    refine ⟨id, d, ha, hk.imp_right ?_⟩
    rintro ⟨i', he'⟩
    obtain ⟨i, he, -⟩ := h.executes_of_balanced hb ha he'
    exact ⟨i, he⟩
  · rintro ⟨id, d, ha, hk⟩
    refine ⟨id, d, h.arrives ha, hk.imp_right ?_⟩
    rintro ⟨i, he⟩
    obtain ⟨i', he', -⟩ := h.executes he
    exact ⟨i', he'⟩

theorem balanced (h : RunsAlike b refs b' refs' returnType) (hb : b.Balanced refs returnType) :
    b'.Balanced refs' returnType := by
  -- Whatever is executed in `b'` is seen from `b`, where nothing goes wrong.
  have back : ∀ {id : InstrId} {d : Nat} {i' : Instruction}, b'.Arrives refs' returnType id d →
      b'.code.get? id = some i' → ∃ after, b'.Executes refs' returnType id d i' after ∧
        (i'.op.flow.goesOn = true → ∃ id', b.code.next? id = some id') := by
    intro id d i' ha' hi'
    have ha := h.arrives_of_balanced hb ha'
    obtain ⟨i, hi⟩ := InstructionList.contains_iff.mp (hb.attached id d ha)
    obtain ⟨⟨pops, pushes⟩, heff⟩ := hb.defined id d i ha hi
    have hfed := hb.fed id d i pops pushes ha hi heff
    obtain ⟨j, he', hflow, -⟩ := h.executes ⟨hi, pops, pushes, heff, hfed, rfl⟩
    have hj := he'.1
    rw [hi'] at hj
    cases hj
    exact ⟨_, he', fun hgo => hb.ends id d i ha hi (hflow ▸ hgo)⟩
  constructor
  · intro id d ha'
    have hin := hb.attached id d (h.arrives_of_balanced hb ha')
    rw [← InstructionList.mem_ids] at hin ⊢
    rw [h.ids]
    exact hin
  · intro id d i' ha' hi'
    obtain ⟨after, ⟨-, pops, pushes, heff, -⟩, -⟩ := back ha' hi'
    exact ⟨_, heff⟩
  · intro id d i' pops pushes ha' hi' heff'
    obtain ⟨after, ⟨-, pops', pushes', heff, hle, -⟩, -⟩ := back ha' hi'
    rw [heff'] at heff
    cases heff
    exact hle
  · intro id d i' ha' hi' hgo
    obtain ⟨after, -, hends⟩ := back ha' hi'
    obtain ⟨id', hnext⟩ := hends hgo
    exact ⟨id', h.next?_eq.mpr hnext⟩
  · intro id d d' ha' ha''
    exact hb.agree id d d' (h.arrives_of_balanced hb ha') (h.arrives_of_balanced hb ha'')

end RunsAlike

/-- A body that runs like one the analysis accepts is accepted with the same answer. -/
theorem computeMaxStack_of_runsAlike {b' : MethodBody} {refs' : ReferenceTable} {m : UInt16}
    (h : RunsAlike b refs b' refs' returnType) (hne : b.code.ids ≠ [])
    (hm : b.computeMaxStack refs returnType = .ok m) :
    b'.computeMaxStack refs' returnType = .ok m := by
  obtain ⟨hb, hoccurs, hmax⟩ := (computeMaxStack_eq_ok hne m).mp hm
  have hne' : b'.code.ids ≠ [] := h.ids ▸ hne
  refine (computeMaxStack_eq_ok hne' m).mpr ⟨h.balanced hb, (h.occurs_iff hb).mpr hoccurs, ?_⟩
  intro k hk
  exact hmax k ((h.occurs_iff hb).mp hk)

/-- The same instructions in the same order under the same handlers, whatever order handlers
and targets are listed in. -/
structure SameUpToListing (b b' : MethodBody) : Prop where
  ids : b'.code.ids = b.code.ids
  handlers : ∀ h, h ∈ b'.handlers ↔ h ∈ b.handlers
  instruction : ∀ id i, b.code.get? id = some i → ∃ i', b'.code.get? id = some i' ∧
    i'.op = i.op ∧ (∀ t, t ∈ i'.targets ↔ t ∈ i.targets) ∧
    ∀ refs returnType, i'.stackEffect refs returnType = i.stackEffect refs returnType

namespace SameUpToListing

variable {b' : MethodBody}

theorem symm (h : SameUpToListing b b') : SameUpToListing b' b where
  ids := h.ids.symm
  handlers handler := (h.handlers handler).symm
  instruction id i' hi' := by
    have hin : id ∈ b'.code.ids := InstructionList.mem_ids_of_get? hi'
    rw [h.ids] at hin
    obtain ⟨i, hi⟩ := InstructionList.get?_of_mem hin
    obtain ⟨j, hj, hop, htargets, heff⟩ := h.instruction id i hi
    rw [hi'] at hj
    cases hj
    exact ⟨i, hi, hop.symm, fun t => (htargets t).symm, fun refs rt => (heff refs rt).symm⟩

theorem runsAlike (h : SameUpToListing b b') (refs : ReferenceTable) (returnType : TypeSig) :
    RunsAlike b refs b' refs returnType where
  ids := h.ids
  handlers := h.handlers
  instruction id i hi := by
    obtain ⟨i', hi', hop, htargets, heff⟩ := h.instruction id i hi
    exact ⟨i', hi', by rw [hop], htargets, fun effect he => (heff refs returnType).trans he⟩

end SameUpToListing

/-! ## Exactness -/

/-- The analysis answers exactly when no path through the body goes wrong and all depths fit
their field, and its answer is the greatest depth that occurs; the order in which handlers and
targets are listed has no part in it. -/
theorem computeMaxStack_exact (b : MethodBody) (refs : ReferenceTable) (returnType : TypeSig)
    (hne : b.code.ids ≠ []) :
    ((∃ m, b.computeMaxStack refs returnType = .ok m) ↔
        b.Balanced refs returnType ∧ ∀ k, b.Occurs refs returnType k → k < UInt16.size) ∧
      (∀ m, b.computeMaxStack refs returnType = .ok m →
        b.Occurs refs returnType m.toNat ∧ ∀ k, b.Occurs refs returnType k → k ≤ m.toNat) ∧
      ∀ b', SameUpToListing b b' → ∀ m,
        b'.computeMaxStack refs returnType = .ok m ↔ b.computeMaxStack refs returnType = .ok m := by
  refine ⟨exists_computeMaxStack_eq_ok hne, ?_, ?_⟩
  · intro m hm
    exact ((computeMaxStack_eq_ok hne m).mp hm).2
  · intro b' h m
    constructor
    · exact computeMaxStack_of_runsAlike (h.symm.runsAlike refs returnType) (h.ids ▸ hne)
    · exact computeMaxStack_of_runsAlike (h.runsAlike refs returnType) hne

/-- A loop in a protected region; an exception is dropped by a handler behind it. -/
def guardedLoop : MethodBody where
  code := ((InstructionList.ofList [.ldarg 0, .branch .brtrue ⟨0⟩, .branch .leave ⟨5⟩, .plain .pop,
    .branch .leave ⟨5⟩, .plain .ret]).toOption.getD .empty)
  locals := #[]
  handlers := [.catching .object ⟨0⟩ (some ⟨3⟩) ⟨3⟩ (some ⟨5⟩)]
  maxStack := 1
  initLocals := false
  codeSize := 0

theorem computeMaxStack_guardedLoop :
    guardedLoop.computeMaxStack .empty .void = .ok 1 ∧ guardedLoop.Balanced .empty .void ∧
      guardedLoop.Occurs .empty .void 1 ∧ ∀ k, guardedLoop.Occurs .empty .void k → k ≤ 1 := by
  have hne : guardedLoop.code.ids ≠ [] := by decide
  have hok : guardedLoop.computeMaxStack .empty .void = .ok 1 := by rfl
  obtain ⟨haccepts, hanswer, -⟩ := computeMaxStack_exact guardedLoop .empty .void hne
  exact ⟨hok, (haccepts.mp ⟨1, hok⟩).1, hanswer 1 hok⟩

end MethodBody

end CilWeave
