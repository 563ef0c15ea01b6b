import Mathlib.Data.List.Flatten
import CilWeave.Pass.FieldAccess.Pass
import CilWeave.Proofs.Module.Enumeration
import CilWeave.Proofs.Pass.Patched
import CilWeave.Proofs.Record.Pairs

/-
What a scan records, and what is found under a recorded name.

Passes change no name, so a name leads to the same method before and after them
(`recordedMethod?_of_patched`). In a linked module each candidate is there once, so a scan
records every patched method under the type that owns it (`perm_pairs_recordOf`), as long as
no two of them go by one name.
-/

namespace CilWeave

/-! ## Names -/

namespace Module

variable {m m' : Module}

theorem typeDef?_of_types (h : m'.types = m.types) (t : Token) : m'.typeDef? t = m.typeDef? t := by
  unfold typeDef?
  rw [h]

theorem nameWithin?_of_types (h : m'.types = m.types) :
    ∀ (depth : Nat) (type : TypeDef), m'.nameWithin? depth type = m.nameWithin? depth type := by
  have henclosing : ∀ type, m'.enclosing? type = m.enclosing? type := fun type => by
    unfold enclosing?
    exact congrArg type.enclosing.bind (funext (typeDef?_of_types h))
  intro depth
  induction depth with
  | zero =>
    intro type
    unfold nameWithin?
    rw [henclosing]
  | succ depth ih =>
    intro type
    unfold nameWithin?
    simp only [henclosing, ih]

theorem typeFullName_of_types (h : m'.types = m.types) (type : TypeDef) :
    m'.typeFullName type = m.typeFullName type := by
  unfold typeFullName typeFullName?
  rw [nameWithin?_of_types h, h]

theorem findType?_of_types (h : m'.types = m.types) (name : String) :
    m'.findType? name = m.findType? name := by
  unfold findType?
  rw [h]
  exact congrArg (m.types.find? ·) (funext fun type => by rw [typeFullName_of_types h])

namespace Patched

variable (h : m.Patched m')

include h

theorem methodFullName_eq {refs : ReferenceTable} {method method' : MethodDef}
    (hmethod : method.Patched refs method') :
    m'.methodFullName method' = m.methodFullName method := by
  unfold methodFullName methodRef declaringTypeSig typeSig
  rw [hmethod.declaringType, hmethod.name, hmethod.signature, typeDef?_of_types h.types]
  simp only [typeFullName_of_types h.types]

theorem methodDef?_rel (t : Token) :
    Option.Rel (MethodDef.Patched m'.references) (m.methodDef? t) (m'.methodDef? t) :=
  Module.rel_methodDef? h.size h.methods t

theorem exists_methodDef? {t : Token} {method : MethodDef} (ht : m.methodDef? t = some method) :
    ∃ method', m'.methodDef? t = some method' := by
  have hrel := h.methodDef?_rel t
  rw [ht] at hrel
  generalize m'.methodDef? t = found' at hrel ⊢
  cases hrel with
  | some hpatched => exact ⟨_, rfl⟩

theorem describeMethod_eq (t : Token) : m'.describeMethod t = m.describeMethod t := by
  unfold describeMethod
  have hrel := h.methodDef?_rel t
  generalize m.methodDef? t = found at hrel ⊢
  generalize m'.methodDef? t = found' at hrel ⊢
  cases hrel with
  | none => rfl
  | some hpatched => exact h.methodFullName_eq hpatched

end Patched

end Module

/-- The last one that is picked is the same among things that look the same. -/
theorem List.findRev?_filterMap_map {α β γ : Type} {f f' : α → Option β} {p p' : β → Bool}
    {g : β → γ} (h : ∀ a, Option.Rel (fun b b' => p' b' = p b ∧ g b' = g b) (f a) (f' a)) :
    ∀ l : List α, ((l.filterMap f').findRev? p').map g = ((l.filterMap f).findRev? p).map g
  | [] => rfl
  | a :: rest => by
    have ih := findRev?_filterMap_map h rest
    have hrel := h a
    rw [List.filterMap_cons, List.filterMap_cons]
    generalize f a = b at hrel ⊢
    generalize f' a = b' at hrel ⊢
    cases hrel with
    | none => exact ih
    | some hsame =>
      obtain ⟨hp, hg⟩ := hsame
      simp only [List.findRev?]
      generalize (rest.filterMap f).findRev? p = found at ih ⊢
      generalize (rest.filterMap f').findRev? p' = found' at ih ⊢
      cases found with
      | some c =>
        cases found' with
        | some c' => exact ih
        | none => cases ih
      | none =>
        cases found' with
        | some c' => cases ih
        | none =>
          simp only [hp]
          split
          · exact congrArg some hg
          · rfl

namespace FieldAccess

variable {f : FieldAccess} {m m' : Module} {t : Token} {typeName methodName : String}
  {owners : List (String × Token)}

/-- A recorded name leads to the same method, whatever passes did. -/
theorem recordedMethod?_of_patched (h : m.Patched m') (typeName methodName : String) :
    recordedMethod? m' typeName methodName = recordedMethod? m typeName methodName := by
  unfold recordedMethod?
  rw [Module.findType?_of_types h.types]
  refine congrArg (m.findType? typeName).bind (funext fun type => ?_)
  simp only [bind_pure_comp]
  refine List.findRev?_filterMap_map (fun t => ?_) type.methods.toList
  have hrel := h.methodDef?_rel t
  generalize m.methodDef? t = found at hrel ⊢
  generalize m'.methodDef? t = found' at hrel ⊢
  cases hrel with
  | none => exact .none
  | some hpatched => exact .some ⟨by rw [h.methodFullName_eq hpatched], hpatched.token⟩

/-! ## Owners -/

/-- A type of this name lists the method. -/
def Owns (m : Module) (typeName : String) (t : Token) : Prop :=
  ∃ (n : Nat) (type : TypeDef), m.types[n]? = some type ∧ t ∈ type.methods.toList ∧
    m.typeFullName type = typeName

section

variable (hm : m.Linked) (hfits : m.FitsTokens)

include hm hfits

theorem Owns.exists_methodDef? (h : Owns m typeName t) :
    ∃ method, m.methodDef? t = some method ∧ method.token = t := by
  obtain ⟨n, type, hn, ht, -⟩ := h
  obtain ⟨method, hdef, htoken, -⟩ := hm.method_of_mem hfits.methods hn ht
  exact ⟨method, hdef, htoken⟩

theorem Owns.unique {other : String} (h : Owns m typeName t) (h' : Owns m other t) :
    typeName = other := by
  obtain ⟨n, type, hn, ht, rfl⟩ := h
  obtain ⟨k, type', hk, ht', rfl⟩ := h'
  obtain ⟨method, hdef, -, howner⟩ := hm.method_of_mem hfits.methods hn ht
  obtain ⟨method', hdef', -, howner'⟩ := hm.method_of_mem hfits.methods hk ht'
  rw [hdef] at hdef'
  cases hdef'
  rw [howner] at howner'
  cases howner'
  rw [hn] at hk
  cases hk
  rfl

theorem recordedMethod?_eq_some (h : recordedMethod? m typeName methodName = some t) :
    Owns m typeName t ∧ m.describeMethod t = methodName := by
  unfold recordedMethod? at h
  obtain ⟨type, htype, h⟩ := Option.bind_eq_some_iff.mp h
  obtain ⟨method, hmethod, heq⟩ := Option.bind_eq_some_iff.mp h
  cases heq
  unfold Module.findType? at htype
  obtain ⟨n, hn⟩ := Array.mem_iff_getElem?.mp (Array.mem_of_find?_eq_some htype)
  have htypeName := Array.find?_some htype
  rw [List.findRev?_eq_find?_reverse] at hmethod
  have hmem := List.mem_reverse.mp (List.mem_of_find?_eq_some hmethod)
  have hmethodName := List.find?_some hmethod
  obtain ⟨t, ht, hdef⟩ := List.mem_filterMap.mp hmem
  obtain ⟨method', hdef', htoken, -⟩ := hm.method_of_mem hfits.methods hn ht
  rw [hdef] at hdef'
  cases hdef'
  rw [htoken]
  refine ⟨⟨n, type, hn, ht, eq_of_beq htypeName⟩, ?_⟩
  unfold Module.describeMethod
  rw [hdef]
  exact eq_of_beq hmethodName

theorem recordedMethod?_inj {p q : String × String} (hp : recordedMethod? m p.1 p.2 = some t)
    (hq : recordedMethod? m q.1 q.2 = some t) : p = q := by
  obtain ⟨hownsp, hnamep⟩ := recordedMethod?_eq_some hm hfits hp
  obtain ⟨hownsq, hnameq⟩ := recordedMethod?_eq_some hm hfits hq
  exact Prod.ext (hownsp.unique hm hfits hownsq) (hnamep.symm.trans hnameq)

/-! ## Candidates -/

theorem owns_of_mem_candidates (h : (typeName, t) ∈ f.candidates m) : Owns m typeName t := by
  unfold candidates at h
  obtain ⟨type, htype, h⟩ := List.mem_flatMap.mp h
  obtain ⟨method, hmethod, heq⟩ := List.mem_map.mp h
  cases heq
  obtain ⟨t, ht, hdef⟩ := List.mem_filterMap.mp (List.mem_of_mem_filter hmethod)
  obtain ⟨n, hn⟩ := (hm.nodup_allTypes hfits.types).2 type (List.mem_of_mem_filter htype)
  obtain ⟨method', hdef', htoken, -⟩ := hm.method_of_mem hfits.methods hn ht
  rw [hdef] at hdef'
  cases hdef'
  rw [htoken]
  exact ⟨n, type, hn, ht, rfl⟩

theorem nodup_candidates : ((f.candidates m).map Prod.snd).Nodup := by
  refine (hm.nodup_methods hfits.types hfits.methods).sublist ?_
  unfold candidates
  rw [List.map_flatMap]
  refine (List.Sublist.flatMap_right _ fun type htype => ?_).trans
    (List.filter_sublist.flatMap _)
  obtain ⟨n, hn⟩ := (hm.nodup_allTypes hfits.types).2 type (List.mem_of_mem_filter htype)
  rw [List.map_map]
  refine (List.filter_sublist.map _).trans ?_
  show ((type.methods.toList.filterMap m.methodDef?).map MethodDef.token).Sublist _
  rw [hm.map_token_methods hfits.methods hn]

end

/-! ## Records -/

/-- The names a method is recorded under: the type it is a candidate of, and its own. -/
def recordedAs (owners : List (String × Token)) (m : Module) (t : Token) : String × String :=
  (((owners.findRev? (·.2 == t)).map Prod.fst).getD "", m.describeMethod t)

theorem findRev?_owner (hnodup : (owners.map Prod.snd).Nodup) (h : (typeName, t) ∈ owners) :
    owners.findRev? (·.2 == t) = some (typeName, t) := by
  rw [List.findRev?_eq_find?_reverse]
  cases hfound : owners.reverse.find? (·.2 == t) with
  | none =>
    have hnone := List.find?_eq_none.mp hfound (typeName, t) (List.mem_reverse.mpr h)
    exact absurd (beq_self_eq_true t) hnone
  | some owner =>
    have hmem := List.mem_reverse.mp (List.mem_of_find?_eq_some hfound)
    have htoken := List.find?_some hfound
    rw [List.inj_on_of_nodup_map hnodup hmem h (eq_of_beq htoken)]

theorem recordedAs_eq (hnodup : (owners.map Prod.snd).Nodup) (h : (typeName, t) ∈ owners) :
    recordedAs owners m t = (typeName, m.describeMethod t) := by
  unfold recordedAs
  rw [findRev?_owner hnodup h]
  rfl

theorem recordedAs_of_patched (h : m.Patched m') (t : Token) :
    recordedAs owners m' t = recordedAs owners m t := by
  unfold recordedAs
  rw [h.describeMethod_eq]

/-- Of candidates that were patched, each is recorded. -/
theorem recordOf_eq {fingerprint : String} {patched : List Token}
    (hnodup : (owners.map Prod.snd).Nodup)
    (hpatched : ∀ t ∈ patched, (∃ typeName, (typeName, t) ∈ owners) ∧
      ∃ method, m.methodDef? t = some method) :
    recordOf owners m fingerprint patched =
      (PatchRecord.empty fingerprint).addEach (patched.map (recordedAs owners m)) := by
  unfold recordOf PatchRecord.addEach
  rw [List.foldl_map]
  refine List.foldl_ext _ _ _ fun record t ht => ?_
  obtain ⟨⟨typeName, howner⟩, method, hmethod⟩ := hpatched t ht
  rw [recordedAs_eq hnodup howner, findRev?_owner hnodup howner, hmethod]
  unfold Module.describeMethod
  rw [hmethod]

end FieldAccess

end CilWeave
