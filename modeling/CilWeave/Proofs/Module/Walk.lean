import Mathlib.Data.Fintype.Card
import Mathlib.Data.List.Nodup
import Mathlib.Data.List.Perm.Subperm
import Mathlib.Data.Set.Finite.List
import Mathlib.Logic.Function.Iterate
import Mathlib.Logic.Relation

/-
Walks with a queue: the first one that waits is yielded, and those it leads to wait behind the
others. Nothing is remembered, so a walk may yield one element many times, or not end.

A walk that ends yields the levels one after the other (`Walk.eq_breadth`). It ends exactly if
nothing that is reached comes back to itself (`Walk.exists_iff_acyclic`), and it ends without
yielding anything twice exactly if everything that is reached is led to in one way only
(`Walk.exists_nodup_iff`).
-/

namespace CilWeave

/-- The walk from these waiting elements ends and yields these ones. -/
inductive Walk {α : Type} (next : α → List α) : (waiting yielded : List α) → Prop where
  | done : Walk next [] []
  | step {a : α} {waiting yielded : List α} : Walk next (waiting ++ next a) yielded →
      Walk next (a :: waiting) (a :: yielded)

namespace Walk

variable {α : Type} {next : α → List α} {waiting yielded level : List α} {a b : α}

theorem unique {yielded' : List α} (h : Walk next waiting yielded)
    (h' : Walk next waiting yielded') : yielded = yielded' := by
  induction h generalizing yielded' with
  | done =>
    cases h'
    rfl
  | step _ ih =>
    cases h' with
    | step h' => rw [ih h']

theorem eq_append (h : Walk next waiting yielded) :
    yielded = waiting ++ yielded.flatMap next := by
  induction h with
  | done => rfl
  | @step a waiting yielded _ ih =>
    calc a :: yielded = a :: (waiting ++ next a ++ yielded.flatMap next) := by rw [← ih]
      _ = a :: waiting ++ (a :: yielded).flatMap next := by simp

/-- The ones in front are yielded first, and what they lead to waits behind the others. -/
theorem append_iff {front back : List α} : Walk next (front ++ back) yielded ↔
    ∃ later, yielded = front ++ later ∧ Walk next (back ++ front.flatMap next) later := by
  induction front generalizing back yielded with
  | nil => simp
  | cons a front ih =>
    constructor
    · intro h
      cases h with
      | step h =>
        have hrest : Walk next (front ++ (back ++ next a)) _ := List.append_assoc .. ▸ h
        obtain ⟨later, rfl, hlater⟩ := ih.mp hrest
        exact ⟨later, rfl, by simpa using hlater⟩
    · rintro ⟨later, rfl, h⟩
      have hrest : Walk next (front ++ (back ++ next a)) (front ++ later) :=
        ih.mpr ⟨later, rfl, by simpa using h⟩
      exact .step (List.append_assoc .. ▸ hrest)

theorem level_iff : Walk next level yielded ↔
    ∃ later, yielded = level ++ later ∧ Walk next (level.flatMap next) later := by
  have h : Walk next (level ++ []) yielded ↔ _ := append_iff
  simpa using h

/-! ## Levels -/

/-- So many levels, one after the other. -/
def breadth (next : α → List α) : (count : Nat) → List α → List α
  | 0, _ => []
  | count + 1, level => level ++ breadth next count (level.flatMap next)

theorem of_iterate_nil (count : Nat) {level : List α}
    (h : (List.flatMap next)^[count] level = []) : Walk next level (breadth next count level) := by
  induction count generalizing level with
  | zero =>
    cases h
    exact .done
  | succ count ih =>
    rw [Function.iterate_succ_apply] at h
    exact level_iff.mpr ⟨_, rfl, ih h⟩

theorem iterate_nil (count : Nat) : (List.flatMap next)^[count] [] = [] :=
  Function.iterate_fixed rfl count

theorem iterate_nil_of_le {count count' : Nat} (hle : count ≤ count')
    (h : (List.flatMap next)^[count] level = []) : (List.flatMap next)^[count'] level = [] := by
  obtain ⟨more, rfl⟩ := Nat.exists_eq_add_of_le hle
  rw [Nat.add_comm, Function.iterate_add_apply, h, iterate_nil]

theorem mem_iterate_succ {d : Nat} : b ∈ (List.flatMap next)^[d + 1] level ↔
    ∃ a ∈ (List.flatMap next)^[d] level, b ∈ next a := by
  rw [Function.iterate_succ_apply', List.mem_flatMap]

theorem iterate_append (d : Nat) (xs ys : List α) : (List.flatMap next)^[d] (xs ++ ys) =
    (List.flatMap next)^[d] xs ++ (List.flatMap next)^[d] ys := by
  induction d with
  | zero => rfl
  | succ d ih => simp only [Function.iterate_succ_apply', ih, List.flatMap_append]

theorem exists_iterate_nil_of_forall
    (h : ∀ a ∈ level, ∃ count, (List.flatMap next)^[count] [a] = []) :
    ∃ count, (List.flatMap next)^[count] level = [] := by
  induction level with
  | nil => exact ⟨0, rfl⟩
  | cons a level ih =>
    obtain ⟨first, hfirst⟩ := h a List.mem_cons_self
    obtain ⟨others, hothers⟩ := ih fun b hb => h b (List.mem_cons_of_mem a hb)
    refine ⟨max first others, ?_⟩
    rw [← List.singleton_append, iterate_append,
      iterate_nil_of_le (Nat.le_max_left ..) hfirst,
      iterate_nil_of_le (Nat.le_max_right ..) hothers]
    rfl

theorem mem_breadth {count : Nat} : b ∈ breadth next count level ↔
    ∃ d < count, b ∈ (List.flatMap next)^[d] level := by
  induction count generalizing level with
  | zero => simp [breadth]
  | succ count ih =>
    rw [breadth, List.mem_append, ih]
    constructor
    · rintro (hb | ⟨d, hlt, hb⟩)
      · exact ⟨0, Nat.succ_pos count, hb⟩
      · exact ⟨d + 1, Nat.succ_lt_succ hlt, hb⟩
    · rintro ⟨d, hlt, hb⟩
      cases d with
      | zero => exact .inl hb
      | succ d => exact .inr ⟨d, Nat.lt_of_succ_lt_succ hlt, hb⟩

theorem sublist_breadth {d count : Nat} (hlt : d < count) :
    ((List.flatMap next)^[d] level).Sublist (breadth next count level) := by
  induction count generalizing d level with
  | zero => exact absurd hlt (Nat.not_lt_zero d)
  | succ count ih =>
    cases d with
    | zero => exact List.sublist_append_left ..
    | succ d => exact (ih (Nat.lt_of_succ_lt_succ hlt)).trans (List.sublist_append_right ..)

theorem pairwise_breadth {R : α → α → Prop} (count : Nat) {level : List α}
    (hwithin : ∀ d, ((List.flatMap next)^[d] level).Pairwise R)
    (hacross : ∀ d d', d < d' → ∀ a ∈ (List.flatMap next)^[d] level,
      ∀ b ∈ (List.flatMap next)^[d'] level, R a b) : (breadth next count level).Pairwise R := by
  induction count generalizing level with
  | zero => exact .nil
  | succ count ih =>
    refine List.pairwise_append.mpr ⟨hwithin 0, ih (fun d => hwithin (d + 1)) ?_, ?_⟩
    · exact fun d d' hlt => hacross (d + 1) (d' + 1) (Nat.succ_lt_succ hlt)
    · intro a ha b hb
      obtain ⟨d, -, hb⟩ := mem_breadth.mp hb
      exact hacross 0 (d + 1) (Nat.succ_pos d) a ha b hb

/-! ## When a walk ends -/

/-- The one element is led to by the other. -/
def Under (next : α → List α) (b a : α) : Prop := b ∈ next a

theorem acc (h : Walk next waiting yielded) : ∀ a ∈ waiting, Acc (Under next) a := by
  induction h with
  | done => nofun
  | @step a waiting yielded _ ih =>
    have hothers : ∀ b ∈ waiting, Acc (Under next) b := fun b hb => ih b (by simp [hb])
    have hfirst : Acc (Under next) a := .intro a fun b hb => ih b (List.mem_append_right _ hb)
    simpa using ⟨hfirst, hothers⟩

theorem exists_iterate_nil (h : Acc (Under next) a) :
    ∃ count, (List.flatMap next)^[count] [a] = [] := by
  induction h with
  | intro a _ ih =>
    obtain ⟨count, hcount⟩ := exists_iterate_nil_of_forall ih
    refine ⟨count + 1, ?_⟩
    rw [Function.iterate_succ_apply, List.flatMap_singleton, hcount]

theorem exists_iff_acc : (∃ yielded, Walk next level yielded) ↔
    ∀ a ∈ level, Acc (Under next) a := by
  constructor
  · rintro ⟨yielded, h⟩
    exact h.acc
  · intro h
    obtain ⟨count, hcount⟩ :=
      exists_iterate_nil_of_forall fun a ha => exists_iterate_nil (h a ha)
    exact ⟨_, of_iterate_nil count hcount⟩

/-! ## Coming back -/

/-- The element is one of those at the start, or one that is led to from there. -/
def Reached (next : α → List α) (level : List α) (b : α) : Prop :=
  ∃ a ∈ level, Relation.ReflTransGen (Under next) b a

theorem Reached.under (h : Reached next level a) (hb : b ∈ next a) : Reached next level b := by
  obtain ⟨start, hstart, hpath⟩ := h
  exact ⟨start, hstart, .head hb hpath⟩

theorem mem_iff_reached (h : Walk next level yielded) : b ∈ yielded ↔ Reached next level b := by
  constructor
  · intro hb
    induction h with
    | done => cases hb
    | @step a waiting yielded _ ih =>
      rcases List.mem_cons.mp hb with rfl | hb
      · exact ⟨b, List.mem_cons_self, .refl⟩
      · obtain ⟨start, hstart, hpath⟩ := ih hb
        rcases List.mem_append.mp hstart with hstart | hstart
        · exact ⟨start, List.mem_cons_of_mem a hstart, hpath⟩
        · exact ⟨a, List.mem_cons_self, hpath.tail hstart⟩
  · rintro ⟨start, hstart, hpath⟩
    induction hpath using Relation.ReflTransGen.head_induction_on with
    | refl =>
      rw [h.eq_append]
      exact List.mem_append_left _ hstart
    | head hb _ ih =>
      rw [h.eq_append]
      exact List.mem_append_right _ (List.mem_flatMap.mpr ⟨_, ih, hb⟩)

/-- Nothing that is reached leads back to itself. -/
def Acyclic (next : α → List α) (level : List α) : Prop :=
  ∀ b, Reached next level b → ¬ Relation.TransGen (Under next) b b

theorem not_transGen_self (h : Acc (Under next) a) : ¬ Relation.TransGen (Under next) a a := by
  have htrans : ∀ b, Acc (Relation.TransGen (Under next)) b →
      ¬ Relation.TransGen (Under next) b b := by
    intro b hb
    induction hb with
    | intro b _ ih => exact fun hself => ih b hself hself
  exact htrans a h.transGen

theorem exists_path {d : Nat} (hb : b ∈ (List.flatMap next)^[d] level) :
    ∃ path : List α, path.length = d ∧ List.IsChain (Under next) (b :: path) ∧
      ∀ a ∈ b :: path, Reached next level a := by
  induction d generalizing b with
  | zero => exact ⟨[], rfl, .singleton b, by simpa using ⟨b, hb, .refl⟩⟩
  | succ d ih =>
    obtain ⟨a, ha, hlists⟩ := mem_iterate_succ.mp hb
    obtain ⟨path, rfl, hchain, hreached⟩ := ih ha
    refine ⟨a :: path, rfl, .cons_cons hlists hchain, ?_⟩
    exact List.forall_mem_cons.mpr ⟨(hreached a List.mem_cons_self).under hlists, hreached⟩

variable {all : List α} (hall : ∀ a b : α, b ∈ next a → b ∈ all)

include hall

theorem Reached.mem (h : Reached next level a) (hlevel : level ⊆ all) : a ∈ all := by
  obtain ⟨start, hstart, hpath⟩ := h
  rcases hpath.cases_head with rfl | ⟨c, hc, -⟩
  · exact hlevel hstart
  · exact hall c a hc

/-- Among finitely many elements, one that leads to something endless leads to a cycle. -/
theorem acc_of_acyclic (h : Acyclic next level) (ha : Reached next level a) :
    Acc (Under next) a := by
  let deeper : {b // b ∈ all} → {b // b ∈ all} → Prop := fun b c =>
    Reached next level b.1 ∧ Relation.TransGen (Under next) b.1 c.1
  have : IsTrans {b // b ∈ all} deeper := ⟨fun _ _ _ hb hc => ⟨hb.1, hb.2.trans hc.2⟩⟩
  have : Std.Irrefl deeper := ⟨fun b hb => h b.1 hb.1 hb.2⟩
  have : Finite {b // b ∈ all} := all.finite_toSet.to_subtype
  have hwell : WellFounded deeper := Finite.wellFounded_of_trans_of_irrefl deeper
  have hlisted : ∀ b : {b // b ∈ all}, Reached next level b.1 → Acc (Under next) b.1 := by
    intro b
    induction b using hwell.induction with
    | h b ih =>
      exact fun hb => .intro b.1 fun c hc =>
        ih ⟨c, hall b.1 c hc⟩ ⟨hb.under hc, .single hc⟩ (hb.under hc)
  exact .intro a fun b hb => hlisted ⟨b, hall a b hb⟩ (ha.under hb)

theorem exists_iff_acyclic :
    (∃ yielded, Walk next level yielded) ↔ Acyclic next level := by
  rw [exists_iff_acc]
  constructor
  · rintro h b ⟨a, ha, hpath⟩
    refine not_transGen_self ?_
    induction hpath using Relation.ReflTransGen.head_induction_on with
    | refl => exact h a ha
    | head hb _ ih => exact ih.inv hb
  · exact fun h a ha => acc_of_acyclic hall h ⟨a, ha, .refl⟩

theorem iterate_length (h : Acyclic next level) (hlevel : level ⊆ all) :
    (List.flatMap next)^[all.length] level = [] := by
  refine List.eq_nil_iff_forall_not_mem.mpr fun b hb => ?_
  obtain ⟨path, hlength, hchain, hreached⟩ := exists_path hb
  have hpairwise : (b :: path).Pairwise (Relation.TransGen (Under next)) :=
    List.isChain_iff_pairwise.mp (hchain.imp fun _ _ => .single)
  have hnodup : (b :: path).Nodup := hpairwise.imp_of_mem fun ha _ hpath heq =>
    h _ (hreached _ ha) (by subst heq; exact hpath)
  have hsubset : b :: path ⊆ all := fun a ha => (hreached a ha).mem hall hlevel
  have hle := (hnodup.subperm hsubset).length_le
  rw [List.length_cons] at hle
  omega

/-- The walk yields the levels one after the other. -/
theorem eq_breadth (h : Walk next level yielded) (hlevel : level ⊆ all) :
    yielded = breadth next all.length level :=
  h.unique (of_iterate_nil _ (iterate_length hall ((exists_iff_acyclic hall).mp ⟨_, h⟩) hlevel))

/-! ## Being led to in one way -/

omit hall in
/-- Whatever is reached is led to in one way only. -/
structure ListedOnce (next : α → List α) (level : List α) : Prop where
  /-- None stands at the start twice. -/
  nodup_level : level.Nodup
  /-- None is led to twice by one element. -/
  nodup : ∀ a, Reached next level a → (next a).Nodup
  /-- None that stands at the start is led to. -/
  fresh : ∀ a, Reached next level a → level.Disjoint (next a)
  /-- None is led to by two elements. -/
  apart : ∀ a b, Reached next level a → Reached next level b → a ≠ b →
    (next a).Disjoint (next b)

omit hall in
theorem listedOnce_of_nodup (h : Walk next level yielded) (hnodup : yielded.Nodup) :
    ListedOnce next level := by
  have hparts : (level ++ yielded.flatMap next).Nodup := h.eq_append ▸ hnodup
  obtain ⟨hlevel, hlisted, hdisjoint⟩ := List.nodup_append'.mp hparts
  obtain ⟨hone, htwo⟩ := List.nodup_flatMap.mp hlisted
  refine ⟨hlevel, fun a ha => hone a (h.mem_iff_reached.mpr ha), fun a ha b hb hb' => ?_,
    fun a b ha hb hne => ?_⟩
  · exact hdisjoint hb (List.mem_flatMap.mpr ⟨a, h.mem_iff_reached.mpr ha, hb'⟩)
  · have : Std.Symm (Function.onFun List.Disjoint next) := ⟨fun _ _ => List.Disjoint.symm⟩
    exact htwo.forall (h.mem_iff_reached.mpr ha) (h.mem_iff_reached.mpr hb) hne

omit hall in
/-- What the next one leads to is neither at the start nor led to before. -/
theorem ListedOnce.disjoint (h : ListedOnce next level) {before waiting : List α}
    (hcourse : before ++ a :: waiting = level ++ before.flatMap next)
    (hnodup : (before ++ a :: waiting).Nodup)
    (hreached : ∀ b ∈ before ++ a :: waiting, Reached next level b) :
    (before ++ a :: waiting).Disjoint (next a) := by
  have ha : Reached next level a := hreached a (by simp)
  rw [hcourse]
  refine List.disjoint_append_left.mpr ⟨h.fresh a ha, fun b hb hb' => ?_⟩
  obtain ⟨c, hc, hb⟩ := List.mem_flatMap.mp hb
  have hne : c ≠ a := by
    rintro rfl
    exact (List.nodup_append'.mp hnodup).2.2 hc List.mem_cons_self
  exact h.apart c a (hreached c (List.mem_append_left _ hc)) ha hne hb hb'

/-- A walk that has come so far goes on to its end, and yields nothing twice. What was yielded
so far and what waits are the start and what was led to so far, all different. -/
theorem exists_of_listedOnce (h : ListedOnce next level) (hlevel : level ⊆ all)
    {before waiting : List α} (hcourse : before ++ waiting = level ++ before.flatMap next)
    (hnodup : (before ++ waiting).Nodup)
    (hreached : ∀ a ∈ before ++ waiting, Reached next level a) :
    ∃ yielded, Walk next waiting yielded ∧ (before ++ yielded).Nodup := by
  cases waiting with
  | nil => exact ⟨[], .done, hnodup⟩
  | cons a waiting =>
    have hsubset : before ++ a :: waiting ⊆ all := fun b hb => (hreached b hb).mem hall hlevel
    have hlt : before.length < all.length := by
      have hle := (hnodup.subperm hsubset).length_le
      rw [List.length_append, List.length_cons] at hle
      omega
    have ha : Reached next level a := hreached a (by simp)
    have hsame : (before ++ [a]) ++ (waiting ++ next a) = (before ++ a :: waiting) ++ next a := by
      simp
    have hfresh := h.disjoint hcourse hnodup hreached
    have hcourse' : (before ++ [a]) ++ (waiting ++ next a) =
        level ++ (before ++ [a]).flatMap next := by
      rw [hsame, hcourse]
      simp
    obtain ⟨yielded, hwalk, hyielded⟩ := exists_of_listedOnce h hlevel hcourse'
      (by rw [hsame]; exact hnodup.append (h.nodup a ha) hfresh)
      (by
        rw [hsame]
        intro b hb
        rcases List.mem_append.mp hb with hb | hb
        · exact hreached b hb
        · exact ha.under hb)
    exact ⟨a :: yielded, .step hwalk, by simpa using hyielded⟩
  termination_by all.length - before.length
  decreasing_by simp only [List.length_append, List.length_singleton]; omega

theorem exists_nodup_iff (hlevel : level ⊆ all) :
    (∃ yielded, Walk next level yielded ∧ yielded.Nodup) ↔ ListedOnce next level := by
  constructor
  · rintro ⟨yielded, h, hnodup⟩
    exact listedOnce_of_nodup h hnodup
  · intro h
    have hcourse : [] ++ level = level ++ ([] : List α).flatMap next := by simp
    exact exists_of_listedOnce hall h hlevel hcourse h.nodup_level fun a ha => ⟨a, ha, .refl⟩

end Walk

end CilWeave
