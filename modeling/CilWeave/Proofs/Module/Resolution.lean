import CilWeave.Proofs.Module.Order
import CilWeave.Proofs.Run.Registry

/-
What a query is answered, beside what it is to be answered.

A query means the methods of the whole module that satisfy it and whose type has the name it
gives (`MethodQuery.qualifying`): one is the answer, none and several are errors
(`MethodQuery.specified`). Full names are texts, and two types may print alike; only the first of
them is searched. So the answer is the specified one exactly if no other type of that name
declares a method that qualifies (`MethodQuery.resolve_eq_specified_iff`).
-/

namespace CilWeave.MethodQuery

variable {q : MethodQuery} {m : Module} {type : TypeDef}

/-- What a query asks of a method: its name and whatever else is given. -/
structure Satisfies (q : MethodQuery) (method : MethodDef) : Prop where
  name : method.name = q.name
  parameterCount : ∀ n, q.parameterCount = some n → method.signature.parameters.length = n
  generic : ∀ g, q.generic = some g → (0 < method.signature.genericParameterCount ↔ g = true)
  genericParameters : ∀ n, q.genericParameters = some n →
    method.signature.genericParameterCount.toNat = n
  parameterTypes : ∀ types, q.parameterTypes = some types → method.signature.parameters = types
  returnType : ∀ type, q.returnType = some type → method.signature.returnType = type
  isStatic : ∀ s, q.isStatic = some s → method.isStatic = s

theorem meets_iff {α : Type} {wish : Option α} {test : α → Bool} :
    meets wish test = true ↔ ∀ a, wish = some a → test a = true := by
  cases wish <;> simp [meets]

theorem accepts_iff {method : MethodDef} : q.accepts method = true ↔ q.Satisfies method := by
  unfold accepts
  simp only [Bool.and_eq_true, meets_iff, beq_iff_eq]
  constructor
  · rintro ⟨⟨⟨⟨⟨⟨hname, hcount⟩, hgeneric⟩, hgenerics⟩, htypes⟩, hreturn⟩, hstatic⟩
    refine ⟨hname, hcount, fun g hg => ?_, hgenerics, htypes, hreturn, hstatic⟩
    rw [← hgeneric g hg, decide_eq_true_iff]
  · intro h
    refine ⟨⟨⟨⟨⟨⟨h.name, h.parameterCount⟩, fun g hg => ?_⟩, h.genericParameters⟩,
      h.parameterTypes⟩, h.returnType⟩, h.isStatic⟩
    rw [Bool.eq_iff_iff, decide_eq_true_iff, h.generic g hg]

/-! ## What is to be answered -/

/-- The methods of the whole module that a query means. -/
def qualifying (q : MethodQuery) (m : Module) : List MethodDef :=
  m.methods.toList.filter fun method =>
    (m.typeDef? method.declaringType).any (m.typeFullName · == q.typeName) && q.accepts method

/-- The answer to a query that finds these methods. -/
def answer (q : MethodQuery) (m : Module) : List MethodDef → Except Error MethodDef
  | [method] => .ok method
  | [] => .error (.memberNotFound q.text m.name)
  | several => .error (.ambiguousMember q.text m.name several.length)

/-- What a query is to be answered: the only method that it means. -/
def specified (q : MethodQuery) (m : Module) : Except Error MethodDef :=
  if m.types.any (m.typeFullName · == q.typeName) then q.answer m (q.qualifying m)
  else .error (.typeNotFound q.typeName)

theorem resolve_of_findType? (h : m.findType? q.typeName = some type) :
    q.resolve m = q.answer m (q.candidates m type) := by
  unfold resolve
  simp only [h]
  cases q.candidates m type with
  | nil => rfl
  | cons first rest => cases rest <;> rfl

theorem specified_of_findType?_none (h : m.findType? q.typeName = none) :
    q.resolve m = q.specified m ∧ q.qualifying m = [] := by
  have hnone : ∀ type ∈ m.types, ¬ (m.typeFullName type == q.typeName) = true :=
    Array.find?_eq_none.mp h
  constructor
  · have hresolve : q.resolve m = .error (.typeNotFound q.typeName) := by
      unfold resolve
      rw [h]
    have hspecified : q.specified m = .error (.typeNotFound q.typeName) := by
      refine if_neg fun hany => ?_
      obtain ⟨type, htype, hname⟩ := Array.any_eq_true'.mp hany
      exact hnone type htype hname
    rw [hresolve, hspecified]
  · refine List.filter_eq_nil_iff.mpr fun method _ hqualifies => ?_
    obtain ⟨hnamed, -⟩ := Bool.and_eq_true_iff.mp hqualifies
    obtain ⟨type, htype, hname⟩ := (Option.any_eq_true ..).mp hnamed
    obtain ⟨n, -, hn⟩ := Module.typeDef?_eq_some.mp htype
    exact hnone type (Array.mem_of_getElem? hn) hname

theorem specified_of_findType? (h : m.findType? q.typeName = some type) :
    q.specified m = q.answer m (q.qualifying m) :=
  if_pos (Array.any_eq_true'.mpr ⟨type, Array.mem_of_find?_eq_some h,
    Array.find?_some (p := (m.typeFullName · == q.typeName)) h⟩)

theorem length_eq_of_answer_eq {found found' : List MethodDef}
    (h : q.answer m found = q.answer m found') : found.length = found'.length := by
  unfold answer at h
  split at h <;> split at h <;> simp_all

/-! ## What is answered -/

variable (hm : m.Built) (htypes : m.types.size < 0x1000000) (hmethods : m.methods.size < 0x1000000)

include hm htypes hmethods

theorem candidates_eq_filter (h : m.findType? q.typeName = some type) : q.candidates m type =
    (q.qualifying m).filter fun method => m.typeDef? method.declaringType = some type := by
  have hname : m.typeFullName type = q.typeName := by simpa using Array.find?_some h
  obtain ⟨n, hn⟩ : ∃ n : Nat, m.types[n]? = some type :=
    Array.mem_iff_getElem?.mp (Array.mem_of_find?_eq_some h)
  have hlisted := hm.methodsOf_eq_filter htypes hmethods hn
  unfold Module.methodsOf at hlisted
  unfold candidates qualifying
  rw [hlisted, List.filter_filter, List.filter_filter]
  refine List.filter_congr fun method _ => ?_
  by_cases howner : m.typeDef? method.declaringType = some type
  · simp [howner, hname]
  · simp [howner]

/-- A query is answered as it is to be exactly if the methods that it means are all declared by
the first type of the name. -/
theorem resolve_eq_specified_iff : q.resolve m = q.specified m ↔
    ∀ method ∈ q.qualifying m, m.typeDef? method.declaringType = m.findType? q.typeName := by
  cases hfind : m.findType? q.typeName with
  | none =>
    obtain ⟨hanswer, hmeant⟩ := specified_of_findType?_none hfind
    rw [hmeant]
    exact ⟨fun _ => by nofun, fun _ => hanswer⟩
  | some type =>
    rw [resolve_of_findType? hfind, specified_of_findType? hfind,
      candidates_eq_filter hm htypes hmethods hfind]
    constructor
    · intro h method hmethod
      have hall := List.filter_sublist.eq_of_length (length_eq_of_answer_eq h)
      have hmem := hall.symm ▸ hmethod
      simpa using (List.mem_filter.mp hmem).2
    · intro h
      rw [List.filter_eq_self.mpr fun method hmethod => by simpa using h method hmethod]

omit hm htypes hmethods

theorem resolve_eq_specified_iff_game :
    (named "Game.A" "Run").resolve ((Module.empty "Game").afterAdditions Module.gameCalls) =
      (named "Game.A" "Run").specified ((Module.empty "Game").afterAdditions Module.gameCalls) :=
  (resolve_eq_specified_iff ((Module.Built.empty "Game").afterAdditions Module.gameCalls)
    (by decide +kernel) (by decide +kernel)).mpr (by decide +kernel)

/-- Two types whose full names print alike, with a method `Run` each. -/
def alikeCalls : List Module.Addition :=
  [.type "Game" "Hero" .isPublic, .type "" "Game.Hero" .isPublic] ++
  [0, 1].map fun row =>
    .method (.ofIndex .typeDef row) "Run" ⟨0x6⟩ (.forInstance .void []) none

/-- A query that means several methods may be answered with one of them. -/
theorem not_resolve_eq_specified : ¬ ∀ (m : Module) (q : MethodQuery), m.Built →
    m.types.size < 0x1000000 → m.methods.size < 0x1000000 → q.resolve m = q.specified m := by
  intro h
  have halike := h ((Module.empty "Game").afterAdditions alikeCalls) (named "Game.Hero" "Run")
    ((Module.Built.empty "Game").afterAdditions alikeCalls) (by decide +kernel) (by decide +kernel)
  have hdiffer : ((named "Game.Hero" "Run").resolve
        ((Module.empty "Game").afterAdditions alikeCalls)).isOk ≠
      ((named "Game.Hero" "Run").specified
        ((Module.empty "Game").afterAdditions alikeCalls)).isOk := by decide +kernel
  exact hdiffer (congrArg _ halike)

end CilWeave.MethodQuery
