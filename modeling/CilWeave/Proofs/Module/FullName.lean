import CilWeave.Module.Names
import CilWeave.Proofs.Module.Completeness
import CilWeave.Proofs.Module.Walk

/-
Full names as they are put together, from a type to the one around it and so on.

The recursion has no bound (`Module.FullName`); the one that is bounded by the number of types
gives the same name whenever there is one (`Module.typeFullName?_eq_some`). A type has a full
name exactly if none of those around it is around itself (`Module.exists_fullName_iff`), and in
a built module every type has one (`Module.Built.exists_fullName`).
-/

namespace CilWeave.Module

variable {m : Module} {type outer : TypeDef} {name : String}

/-- The recursion that puts the full name of a type together ends, with this name. -/
inductive FullName (m : Module) : TypeDef → String → Prop where
  | nested {type outer : TypeDef} {name : String} : m.enclosing? type = some outer →
      FullName m outer name → FullName m type (name ++ "/" ++ type.name)
  | bare {type : TypeDef} : m.enclosing? type = none → type.nameSpace.isEmpty = true →
      FullName m type type.name
  | spaced {type : TypeDef} : m.enclosing? type = none → type.nameSpace.isEmpty = false →
      FullName m type (type.nameSpace ++ "." ++ type.name)

/-- Every type has a full name. -/
def Named (m : Module) : Prop := ∀ type ∈ m.types.toList, ∃ name, m.FullName type name

theorem enclosing?_eq_some : m.enclosing? type = some outer ↔
    ∃ e, type.enclosing = some e ∧ m.typeDef? e = some outer := by
  unfold enclosing?
  exact Option.bind_eq_some_iff

theorem mem_types_of_enclosing? (h : m.enclosing? type = some outer) :
    outer ∈ m.types.toList := by
  obtain ⟨e, -, he⟩ := enclosing?_eq_some.mp h
  obtain ⟨n, -, hn⟩ := typeDef?_eq_some.mp he
  rw [← Array.getElem?_toList] at hn
  exact List.mem_of_getElem? hn

theorem FullName.outermost (h : m.enclosing? type = none) : m.FullName type
    (if type.nameSpace.isEmpty then type.name else type.nameSpace ++ "." ++ type.name) := by
  cases hspace : type.nameSpace.isEmpty with
  | true => exact .bare h hspace
  | false => exact .spaced h hspace

/-! ## The recursion as a walk -/

def around (m : Module) (type : TypeDef) : List TypeDef := (m.enclosing? type).toList

theorem mem_around : outer ∈ m.around type ↔ m.enclosing? type = some outer := Option.mem_toList

theorem around_subset (type : TypeDef) : m.around type ⊆ m.types.toList :=
  fun _ h => mem_types_of_enclosing? (mem_around.mp h)

theorem exists_fullName_iff_walk :
    (∃ name, m.FullName type name) ↔ ∃ yielded, Walk m.around [type] yielded := by
  constructor
  · rintro ⟨name, h⟩
    induction h with
    | @nested type outer name houter _ ih =>
      obtain ⟨yielded, h⟩ := ih
      exact ⟨type :: yielded, .step (by simpa [around, houter] using h)⟩
    | @bare type houter => exact ⟨[type], .step (by simpa [around, houter] using .done)⟩
    | @spaced type houter => exact ⟨[type], .step (by simpa [around, houter] using .done)⟩
  · rintro ⟨yielded, h⟩
    have hacc := h.acc type List.mem_cons_self
    clear h
    induction hacc with
    | intro type _ ih =>
      cases houter : m.enclosing? type with
      | some outer =>
        obtain ⟨name, hname⟩ := ih outer (mem_around.mpr houter)
        exact ⟨_, .nested houter hname⟩
      | none => exact ⟨_, .outermost houter⟩

theorem exists_fullName_iff :
    (∃ name, m.FullName type name) ↔ Walk.Acyclic m.around [type] := by
  rw [exists_fullName_iff_walk]
  exact Walk.exists_iff_acyclic fun a _ hb => around_subset a hb

/-! ## The recursion with a bound -/

theorem fullName_of_nameWithin? {depth : Nat} (h : m.nameWithin? depth type = some name) :
    m.FullName type name := by
  induction depth generalizing type name with
  | zero =>
    unfold nameWithin? at h
    cases houter : m.enclosing? type with
    | some outer => simp [houter] at h
    | none =>
      simp only [houter, Option.some.injEq] at h
      exact h ▸ .outermost houter
  | succ depth ih =>
    unfold nameWithin? at h
    cases houter : m.enclosing? type with
    | some outer =>
      simp only [houter, Option.map_eq_some_iff] at h
      obtain ⟨inner, hinner, rfl⟩ := h
      exact .nested houter (ih hinner)
    | none =>
      simp only [houter, Option.some.injEq] at h
      exact h ▸ .outermost houter

theorem nameWithin?_eq_some (h : m.FullName type name) {depth : Nat}
    (hdepth : (List.flatMap m.around)^[depth] (m.around type) = []) :
    m.nameWithin? depth type = some name := by
  induction h generalizing depth with
  | @nested type outer name houter _ ih =>
    have haround : m.around type = [outer] := by simp [around, houter]
    rw [haround] at hdepth
    cases depth with
    | zero => cases hdepth
    | succ depth =>
      rw [Function.iterate_succ_apply, List.flatMap_singleton] at hdepth
      simp [nameWithin?, houter, ih hdepth]
  | bare houter hspace => unfold nameWithin?; simp [houter, hspace]
  | spaced houter hspace => unfold nameWithin?; simp [houter, hspace]

/-- As many types as there are can be around a type, so the bound never cuts a name short. -/
theorem typeFullName?_eq_some : m.typeFullName? type = some name ↔ m.FullName type name := by
  constructor
  · exact fullName_of_nameWithin?
  · intro h
    have hall : ∀ a b, b ∈ m.around a → b ∈ m.types.toList := fun a _ hb => around_subset a hb
    have hacyclic : Walk.Acyclic m.around (m.around type) := by
      rintro b ⟨a, ha, hpath⟩
      exact exists_fullName_iff.mp ⟨name, h⟩ b ⟨type, List.mem_cons_self, hpath.tail ha⟩
    refine nameWithin?_eq_some h ?_
    rw [← Array.length_toList]
    exact Walk.iterate_length hall hacyclic (around_subset type)

theorem Built.row_enclosing? (hm : m.Built) (hfits : m.types.size < 0x1000000) {k : Nat}
    (hk : m.types[k]? = some type) (h : m.enclosing? type = some outer) :
    ∃ n < k, m.types[n]? = some outer := by
  obtain ⟨e, he, hdef⟩ := enclosing?_eq_some.mp h
  obtain ⟨n, lister, hlt, hn, hlists⟩ := hm.listed.nested hk he
  obtain ⟨-, e', -, he', hdef'⟩ := hm.linked.enclosing_of_nested hfits hn
    (Array.mem_toList_iff.mpr hlists) (typeDef?_ofIndex hfits hk)
  obtain rfl : e = e' := Option.some.inj (he.symm.trans he')
  obtain rfl : outer = lister := Option.some.inj (hdef.symm.trans hdef')
  exact ⟨n, hlt, hn⟩

theorem Built.exists_fullName (hm : m.Built) (hfits : m.types.size < 0x1000000) (k : Nat) :
    ∀ {type : TypeDef}, m.types[k]? = some type → ∃ name, m.FullName type name := by
  induction k using Nat.strongRecOn with
  | ind k ih =>
    intro type hk
    cases houter : m.enclosing? type with
    | none => exact ⟨_, .outermost houter⟩
    | some outer =>
      obtain ⟨n, hlt, hn⟩ := hm.row_enclosing? hfits hk houter
      obtain ⟨name, hname⟩ := ih n hlt hn
      exact ⟨_, .nested houter hname⟩

theorem Built.named (hm : m.Built) (hfits : m.types.size < 0x1000000) : m.Named := by
  intro type htype
  obtain ⟨k, hk⟩ := List.mem_iff_getElem?.mp htype
  exact hm.exists_fullName hfits k (Array.getElem?_toList ▸ hk)

end CilWeave.Module
