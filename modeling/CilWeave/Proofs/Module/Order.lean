import Mathlib.Data.List.Perm.Lattice
import Mathlib.Data.List.Nodup
import CilWeave.Proofs.Module.Additions

/-
The enumeration of a module that was made with the `add` functions.

Every type is yielded once, in the order `Module.InOrder` gives, and every method once behind the
methods of the types before its own. The walk itself ends, and so does the recursion behind the
full name of each type (`Module.enumeration_of_additions`).
-/

namespace CilWeave.Module

variable {m : Module} {type : TypeDef}

/-! ## The walk -/

namespace Built

variable (hm : m.Built) (htypes : m.types.size < 0x1000000)

include hm htypes

/-- A type in a level has as many types around it as there are levels before, and the rows of
these are before its own. -/
theorem atDepth_of_mem_level (d : Nat) :
    ∀ {type : TypeDef}, type ∈ (List.flatMap m.listedIn)^[d] m.topLevelTypes →
      m.AtDepth d type ∧ ∃ n : Nat, d ≤ n ∧ m.types[n]? = some type := by
  induction d with
  | zero =>
    intro type htype
    obtain ⟨hmem, hnested⟩ := List.mem_filter.mp htype
    obtain ⟨n, hn⟩ := List.mem_iff_getElem?.mp hmem
    rw [Array.getElem?_toList] at hn
    refine ⟨.topLevel ?_, n, Nat.zero_le n, hn⟩
    simpa [TypeDef.isNested] using hnested
  | succ d ih =>
    intro type htype
    obtain ⟨outer, houter, hlists⟩ := Walk.mem_iterate_succ.mp htype
    obtain ⟨hdepth, n, hle, hn⟩ := ih houter
    rw [hm.listedIn_eq_filter htypes hn] at hlists
    obtain ⟨hmem, henclosing⟩ := List.mem_filter.mp hlists
    obtain ⟨k, hk⟩ := List.mem_iff_getElem?.mp hmem
    rw [Array.getElem?_toList] at hk
    have henclosing : m.enclosing? type = some outer := of_decide_eq_true henclosing
    obtain ⟨e, he, hdef⟩ := enclosing?_eq_some.mp henclosing
    obtain ⟨n', hlt, hn'⟩ := hm.row_enclosing? htypes hk henclosing
    have hsame := hm.linked.row_unique htypes hn hn'
    exact ⟨.nested hdepth he hdef, k, by omega, hk⟩

theorem iterate_size : (List.flatMap m.listedIn)^[m.types.size] m.topLevelTypes = [] := by
  refine List.eq_nil_iff_forall_not_mem.mpr fun type htype => ?_
  obtain ⟨-, n, hle, hn⟩ := hm.atDepth_of_mem_level htypes _ htype
  have hlt := lt_size_of_getElem? hn
  omega

theorem walk_allTypes : Walk m.listedIn m.topLevelTypes m.allTypes := by
  have h := Walk.of_iterate_nil _ (hm.iterate_size htypes)
  rwa [allTypes_eq_of_walk h]

theorem allTypes_perm : m.allTypes.Perm m.types.toList := by
  obtain ⟨hnodup, hrows⟩ := hm.linked.nodup_allTypes htypes
  refine (List.perm_ext_iff_of_nodup hnodup (hm.linked.nodup_types htypes)).mpr fun type => ?_
  constructor
  · intro h
    obtain ⟨n, hn⟩ := hrows type h
    rw [← Array.getElem?_toList] at hn
    exact List.mem_of_getElem? hn
  · intro h
    obtain ⟨n, hn⟩ := List.mem_iff_getElem?.mp h
    rw [Array.getElem?_toList] at hn
    exact hm.listed.mem_allTypes htypes hn

end Built

/-! ## The order -/

/-- The first type is to be yielded before the second: because fewer types are around it, or
with as many around both because it was declared before, or the one around it is yielded
before. -/
inductive InOrder (m : Module) (a b : TypeDef) : Prop where
  | depth {d d' : Nat} : m.AtDepth d a → m.AtDepth d' b → d < d' → InOrder m a b
  | topLevel : m.AtDepth 0 a → m.AtDepth 0 b →
      m.types.toList.idxOf a < m.types.toList.idxOf b → InOrder m a b
  | enclosing {d : Nat} {outer outer' : TypeDef} : m.AtDepth (d + 1) a → m.AtDepth (d + 1) b →
      m.enclosing? a = some outer → m.enclosing? b = some outer' →
      m.allTypes.idxOf outer < m.allTypes.idxOf outer' → InOrder m a b
  | siblings {outer : TypeDef} : m.enclosing? a = some outer → m.enclosing? b = some outer →
      m.types.toList.idxOf a < m.types.toList.idxOf b → InOrder m a b

theorem pairwise_idxOf {α : Type} [DecidableEq α] {xs : List α} (h : xs.Nodup) :
    xs.Pairwise fun a b => xs.idxOf a < xs.idxOf b := by
  refine List.pairwise_iff_getElem.mpr fun i j hi hj hij => ?_
  rwa [h.idxOf_getElem i hi, h.idxOf_getElem j hj]

namespace Built

variable (hm : m.Built) (htypes : m.types.size < 0x1000000)

include hm htypes

theorem sublist_level (d : Nat) :
    ((List.flatMap m.listedIn)^[d] m.topLevelTypes).Sublist m.allTypes := by
  rw [allTypes_eq_breadth]
  by_cases hlt : d < m.types.size
  · exact Walk.sublist_breadth hlt
  · rw [Walk.iterate_nil_of_le (Nat.le_of_not_lt hlt) (hm.iterate_size htypes)]
    exact List.nil_sublist _

theorem pairwise_level (d : Nat) :
    ((List.flatMap m.listedIn)^[d] m.topLevelTypes).Pairwise m.InOrder := by
  have hdeclared := pairwise_idxOf (hm.linked.nodup_types htypes)
  cases d with
  | zero =>
    have hsub : m.topLevelTypes.Sublist m.types.toList := List.filter_sublist
    refine (hdeclared.sublist hsub).imp_of_mem fun ha hb hlt => ?_
    exact .topLevel (hm.atDepth_of_mem_level htypes 0 ha).1 (hm.atDepth_of_mem_level htypes 0 hb).1
      hlt
  | succ d =>
    have hlevel := (pairwise_idxOf (hm.linked.nodup_allTypes htypes).1).sublist
      (hm.sublist_level htypes d)
    rw [Function.iterate_succ_apply']
    refine List.pairwise_flatMap.mpr ⟨fun outer houter => ?_, ?_⟩
    · obtain ⟨-, n, -, hn⟩ := hm.atDepth_of_mem_level htypes d houter
      rw [hm.listedIn_eq_filter htypes hn]
      refine (hdeclared.sublist List.filter_sublist).imp_of_mem fun ha hb hlt => ?_
      exact .siblings (by simpa using (List.mem_filter.mp ha).2)
        (by simpa using (List.mem_filter.mp hb).2) hlt
    · refine hlevel.imp_of_mem fun {outer outer'} houter houter' hlt a ha b hb => ?_
      have hdepth : ∀ {outer a : TypeDef},
          outer ∈ (List.flatMap m.listedIn)^[d] m.topLevelTypes → a ∈ m.listedIn outer →
          m.AtDepth (d + 1) a ∧ m.enclosing? a = some outer := by
        intro outer a houter ha
        obtain ⟨-, n, -, hn⟩ := hm.atDepth_of_mem_level htypes d houter
        refine ⟨(hm.atDepth_of_mem_level htypes (d + 1)
          (Walk.mem_iterate_succ.mpr ⟨outer, houter, ha⟩)).1, ?_⟩
        rw [hm.listedIn_eq_filter htypes hn] at ha
        simpa using (List.mem_filter.mp ha).2
      obtain ⟨hda, hea⟩ := hdepth houter ha
      obtain ⟨hdb, heb⟩ := hdepth houter' hb
      exact .enclosing hda hdb hea heb hlt

theorem pairwise_allTypes : m.allTypes.Pairwise m.InOrder := by
  rw [allTypes_eq_breadth]
  refine Walk.pairwise_breadth _ (hm.pairwise_level htypes) fun d d' hlt a ha b hb => ?_
  exact .depth (hm.atDepth_of_mem_level htypes d ha).1 (hm.atDepth_of_mem_level htypes d' hb).1 hlt

/-! ## Methods -/

theorem allMethods_eq (hmethods : m.methods.size < 0x1000000) : m.allMethods =
    m.allTypes.flatMap fun type => m.methods.toList.filter fun method =>
      m.typeDef? method.declaringType = some type := by
  refine List.flatMap_congr fun type htype => ?_
  obtain ⟨n, hn⟩ := (hm.linked.nodup_allTypes htypes).2 type htype
  exact hm.methodsOf_eq_filter htypes hmethods hn

omit htypes in
theorem nodup_methods (hmethods : m.methods.size < 0x1000000) : m.methods.toList.Nodup := by
  have hrow : ∀ (n : Nat) (hn : n < m.methods.toList.length),
      m.methods.toList[n].token = .ofIndex .methodDef n := fun n hn =>
    hm.linked.methodToken (by rw [← Array.getElem?_toList]; exact List.getElem?_eq_getElem hn)
  refine List.pairwise_iff_getElem.mpr fun i j hi hj hij heq => ?_
  have htokens : Token.ofIndex .methodDef i = .ofIndex .methodDef j := by
    rw [← hrow i hi, ← hrow j hj, heq]
  rw [Array.length_toList] at hi hj
  have hsame := Token.ofIndex_inj (by omega) (by omega) htokens
  omega

theorem allMethods_perm (hmethods : m.methods.size < 0x1000000) :
    m.allMethods.Nodup ∧ m.allMethods.Perm m.methods.toList := by
  have hnodup : m.allMethods.Nodup := (hm.linked.nodup_allMethods htypes hmethods).of_map _
  refine ⟨hnodup, (List.perm_ext_iff_of_nodup hnodup (hm.nodup_methods hmethods)).mpr ?_⟩
  intro method
  constructor
  · intro h
    rw [hm.allMethods_eq htypes hmethods] at h
    obtain ⟨type, -, h⟩ := List.mem_flatMap.mp h
    exact (List.mem_filter.mp h).1
  · exact fun h => hm.listed.mem_allMethods htypes (hm.methodDef?_token hmethods h)

end Built

/-- The enumeration of a module is complete and exact. -/
structure Enumerated (m : Module) : Prop where
  /-- The walk over the types ends, with the types of the enumeration. -/
  walk : Walk m.listedIn m.topLevelTypes m.allTypes
  /-- No type is yielded twice. -/
  nodup_types : m.allTypes.Nodup
  /-- The types that are yielded are those of the module. -/
  perm_types : m.allTypes.Perm m.types.toList
  /-- They come by depth, and within a depth by where the types around them come. -/
  inOrder : m.allTypes.Pairwise m.InOrder
  /-- No method is yielded twice. -/
  nodup_methods : m.allMethods.Nodup
  /-- The methods that are yielded are those of the module. -/
  perm_methods : m.allMethods.Perm m.methods.toList
  /-- They come by type, and those of one type as they were declared. -/
  methods : m.allMethods = m.allTypes.flatMap fun type =>
    m.methods.toList.filter fun method => m.typeDef? method.declaringType = some type
  /-- The full name of each type can be put together. -/
  fullName : ∀ type ∈ m.types.toList, m.FullName type (m.typeFullName type)

theorem Built.fullName (hm : m.Built) (htypes : m.types.size < 0x1000000)
    (h : type ∈ m.types.toList) : m.FullName type (m.typeFullName type) := by
  obtain ⟨n, hn⟩ := List.mem_iff_getElem?.mp h
  rw [Array.getElem?_toList] at hn
  obtain ⟨name, hname⟩ := hm.exists_fullName htypes n hn
  have hsome := typeFullName?_eq_some.mpr hname
  rwa [typeFullName, hsome]

theorem Built.enumerated (hm : m.Built) (htypes : m.types.size < 0x1000000)
    (hmethods : m.methods.size < 0x1000000) : m.Enumerated :=
  ⟨hm.walk_allTypes htypes, (hm.linked.nodup_allTypes htypes).1, hm.allTypes_perm htypes,
    hm.pairwise_allTypes htypes, (hm.allMethods_perm htypes hmethods).1,
    (hm.allMethods_perm htypes hmethods).2, hm.allMethods_eq htypes hmethods,
    fun _ h => hm.fullName htypes h⟩

/-- However the `add` functions are called, refused calls included, the enumeration of the
module is complete and exact, and a call is refused exactly if its owner is missing, with the
module as it was. -/
theorem enumeration_of_additions (name : String) (calls : List Addition)
    (htypes : ((empty name).afterAdditions calls).types.size < 0x1000000)
    (hmethods : ((empty name).afterAdditions calls).methods.size < 0x1000000) :
    ((empty name).afterAdditions calls).Enumerated ∧
      ∀ (call : Addition) (e : Error) (m : Module),
        (call.make ((empty name).afterAdditions calls) = .error e m ↔
          ∃ owner, call.owner? = some owner ∧
            ((empty name).afterAdditions calls).typeDef? owner = none ∧
            e = .typeNotFound owner.text ∧ m = (empty name).afterAdditions calls) ∧
        (call.make ((empty name).afterAdditions calls) = .error e m →
          (empty name).afterAdditions (calls ++ [call]) = (empty name).afterAdditions calls) := by
  refine ⟨((Built.empty name).afterAdditions calls).enumerated htypes hmethods,
    fun call e m => ⟨Addition.make_eq_error_iff, fun h => ?_⟩⟩
  obtain ⟨_, -, -, -, rfl⟩ := Addition.make_eq_error_iff.mp h
  unfold afterAdditions at h ⊢
  rw [List.foldl_append, List.foldl_cons, Edit.after_error h]
  rfl

/-- Types at three depths, methods of three of them, and a method of a type that is missing. -/
def gameCalls : List Addition :=
  [.type "Game" "B" .isPublic, .type "Game" "A" .isPublic,
    .nestedType (.ofIndex .typeDef 1) "Inner" .isPublic,
    .nestedType (.ofIndex .typeDef 2) "Deep" .isPublic,
    .nestedType (.ofIndex .typeDef 0) "Other" .isPublic,
    .type "Game" "IThing" .isPublic] ++
  [1, 9, 2, 0].map fun row =>
    .method (.ofIndex .typeDef row) "Run" ⟨0x6⟩ (.forInstance .void []) none

theorem enumeration_of_additions_game : ((empty "Game").afterAdditions gameCalls).Enumerated :=
  (enumeration_of_additions "Game" gameCalls (by decide +kernel) (by decide +kernel)).1

example : (((empty "Game").afterAdditions gameCalls).allTypes.map TypeDef.name,
    ((empty "Game").afterAdditions gameCalls).methods.size) =
    (["B", "A", "IThing", "Other", "Inner", "Deep"], 3) := by decide +kernel

end CilWeave.Module
