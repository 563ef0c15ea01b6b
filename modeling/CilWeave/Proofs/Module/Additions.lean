import Mathlib.Data.List.Nodup
import CilWeave.Proofs.Module.FullName
import CilWeave.Proofs.Module.Levels

/-
What the `add` functions make, whatever the calls and the order they come in.

A call that names an owner the module does not have is refused and leaves the module as it was
(`Module.Addition.make_eq_error_iff`). The others keep what the types list the mirror image of
what the definitions name as their owner (`Module.Built.mirrored`): what a type lists are the definitions
that name it, in the order they were declared (`Module.Built.listedIn_eq_filter`,
`Module.Built.methodsOf_eq_filter`).
-/

namespace CilWeave

/-- The type names the type in this row as the one around it. -/
def TypeDef.liesIn (type : TypeDef) (n : Nat) : Bool :=
  type.enclosing.bind (Token.indexIn? · .typeDef) == some n

/-- The method names the type in this row as the one that declares it. -/
def MethodDef.belongsTo (method : MethodDef) (n : Nat) : Bool :=
  method.declaringType.indexIn? .typeDef == some n

namespace Module

variable {m m' : Module} {type : TypeDef} {n : Nat}

/-! ## Calls -/

/-- A call of one of the `add` functions. -/
inductive Addition where
  | type (nameSpace name : String) (flags : TypeFlags)
  | nestedType (enclosing : Token) (name : String) (flags : TypeFlags)
  | field (owner : Token) (name : String) (fieldType : TypeSig) (flags : FieldFlags)
      (customAttributes : List String)
  | method (owner : Token) (name : String) (flags : MethodFlags) (signature : MethodSig)
      (body : Option MethodBody)

namespace Addition

/-- Makes the call; the token of the new definition. -/
def make : Addition → Edit Module Token
  | .type nameSpace name flags => modifyGet fun m => m.addType nameSpace name flags
  | .nestedType enclosing name flags => addNestedType enclosing name flags
  | .field owner name fieldType flags customAttributes =>
    addField owner name fieldType flags customAttributes
  | .method owner name flags signature body => addMethod owner name flags signature body

/-- The type that is to own the new definition, unless that is a type of the top level. -/
def owner? : Addition → Option Token
  | .type .. => none
  | .nestedType enclosing .. => some enclosing
  | .field owner .. => some owner
  | .method owner .. => some owner

end Addition

/-- The module after some calls, each of which may be refused. -/
def afterAdditions (m : Module) (calls : List Addition) : Module :=
  calls.foldl (fun m call => call.make.after m) m

/-- A call is refused exactly if the owner it names is no type of the module, says so, and
changes nothing. -/
theorem Addition.make_eq_error_iff {call : Addition} {e : Error} : call.make m = .error e m' ↔
    ∃ owner, call.owner? = some owner ∧ m.typeDef? owner = none ∧
      e = .typeNotFound owner.text ∧ m' = m := by
  cases call with
  | type nameSpace name flags => exact ⟨nofun, nofun⟩
  | nestedType owner name flags =>
    exact addNestedType_eq_error_iff.trans ⟨fun h => ⟨owner, rfl, h⟩, fun ⟨_, rfl, h⟩ => h⟩
  | field owner name fieldType flags customAttributes =>
    exact addField_eq_error_iff.trans ⟨fun h => ⟨owner, rfl, h⟩, fun ⟨_, rfl, h⟩ => h⟩
  | method owner name flags signature body =>
    exact addMethod_eq_error_iff.trans ⟨fun h => ⟨owner, rfl, h⟩, fun ⟨_, rfl, h⟩ => h⟩

theorem Built.afterAddition (h : m.Built) (call : Addition) : (call.make.after m).Built := by
  cases hmake : call.make m with
  | error e m' =>
    obtain ⟨_, -, -, -, rfl⟩ := Addition.make_eq_error_iff.mp hmake
    rwa [Edit.after_error hmake]
  | ok t m' =>
    rw [Edit.after_ok hmake]
    cases call with
    | type nameSpace name flags =>
      cases hmake
      exact .addType nameSpace name flags h
    | nestedType => exact .addNestedType h hmake
    | field => exact .addField h hmake
    | method => exact .addMethod h hmake

theorem Built.afterAdditions (h : m.Built) (calls : List Addition) :
    (m.afterAdditions calls).Built := by
  induction calls generalizing m with
  | nil => exact h
  | cons call calls ih => exact ih (h.afterAddition call)

/-! ## What the types list -/

section Lists

variable {α : Type} {lists : TypeDef → Array Token} {owns : α → Nat → Bool} {token : α → Token}

/-- The tokens that the type in a row lists, of the definitions of one kind. -/
def listedTokens (lists : TypeDef → Array Token) (types : Array TypeDef) (n : Nat) : List Token :=
  (types[n]?.map fun type => (lists type).toList).getD []

/-- The tokens of the definitions that are owned by the type in a row, as they are declared. -/
def ownedTokens (owns : α → Nat → Bool) (token : α → Token) (rows : Array α) (n : Nat) :
    List Token :=
  (rows.toList.filter (owns · n)).map token

theorem listedTokens_push {types : Array TypeDef} {type : TypeDef} (h : lists type = #[])
    (n : Nat) : listedTokens lists (types.push type) n = listedTokens lists types n := by
  unfold listedTokens
  rw [Array.getElem?_push]
  split
  · rename_i hn
    rw [hn, Array.getElem?_eq_none (Nat.le_refl _), Option.map_some, h]
    rfl
  · rfl

theorem listedTokens_modify_of_same {f : TypeDef → TypeDef}
    (h : ∀ type, lists (f type) = lists type) (types : Array TypeDef) (r n : Nat) :
    listedTokens lists (types.modify r f) n = listedTokens lists types n := by
  unfold listedTokens
  rw [Array.getElem?_modify]
  split
  · cases types[n]? with
    | none => rfl
    | some type => simp only [Option.map_some, h]
  · rfl

theorem listedTokens_modify_of_push {f : TypeDef → TypeDef} (t : Token)
    (h : ∀ type, lists (f type) = (lists type).push t) {types : Array TypeDef} {r : Nat}
    (hlt : r < types.size) (n : Nat) : listedTokens lists (types.modify r f) n =
      listedTokens lists types n ++ if r = n then [t] else [] := by
  unfold listedTokens
  rw [Array.getElem?_modify]
  split
  · rename_i hn
    subst hn
    rw [Array.getElem?_eq_getElem hlt]
    simp [h]
  · simp

theorem ownedTokens_push (rows : Array α) (a : α) (n : Nat) :
    ownedTokens owns token (rows.push a) n =
      ownedTokens owns token rows n ++ if owns a n then [token a] else [] := by
  unfold ownedTokens
  rw [Array.toList_push, List.filter_append, List.map_append]
  cases ha : owns a n <;> simp [ha]

theorem ownedTokens_modify {f : α → α} (howns : ∀ a, owns (f a) = owns a)
    (htoken : ∀ a, token (f a) = token a) (rows : Array α) (r n : Nat) :
    ownedTokens owns token (rows.modify r f) n = ownedTokens owns token rows n := by
  unfold ownedTokens
  rw [Array.toList_modify]
  induction rows.toList generalizing r with
  | nil => simp
  | cons a rest ih =>
    cases r with
    | zero => cases ha : owns a n <;> simp [howns, htoken, ha]
    | succ r => cases ha : owns a n <;> simp [ha, ih r]

end Lists

/-- The types list the definitions that name them as their owner, in the order of the rows. -/
structure Mirrored (m : Module) : Prop where
  nestedTypes : ∀ n, listedTokens TypeDef.nestedTypes m.types n =
    ownedTokens TypeDef.liesIn TypeDef.token m.types n
  methods : ∀ n, listedTokens TypeDef.methods m.types n =
    ownedTokens MethodDef.belongsTo MethodDef.token m.methods n

namespace Mirrored

variable {t owner : Token} {name : String}

theorem addType (h : m.Mirrored) (nameSpace name : String) (flags : TypeFlags) :
    Mirrored (m.addType nameSpace name flags).2 := by
  constructor <;> intro n <;> rw [Module.addType, listedTokens_push rfl]
  · rw [ownedTokens_push, h.nestedTypes]
    exact (List.append_nil _).symm
  · exact h.methods n

theorem addNestedType {flags : TypeFlags} (h : m.Mirrored)
    (hadd : Module.addNestedType owner name flags m = .ok t m') : m'.Mirrored := by
  obtain ⟨r, inner, hr, hlt, htoken, henclosing, hmethods, hnested, rfl⟩ :=
    addNestedType_eq_ok hadd
  have hlies : ∀ n, inner.liesIn n = true ↔ r = n := fun n => by
    simp [TypeDef.liesIn, henclosing, hr]
  constructor <;> intro n
  · rw [listedTokens_push hnested, listedTokens_modify_of_push inner.token _ hlt,
      ownedTokens_push, ownedTokens_modify, h.nestedTypes]
    · simp only [hlies]
    all_goals intro type
    · rfl
    · rfl
    · rw [htoken]
  · rw [listedTokens_push hmethods, listedTokens_modify_of_same]
    · exact h.methods n
    · exact fun _ => rfl

theorem addField {fieldType : TypeSig} {flags : FieldFlags} {customAttributes : List String}
    (h : m.Mirrored)
    (hadd : Module.addField owner name fieldType flags customAttributes m = .ok t m') :
    m'.Mirrored := by
  obtain ⟨r, fields, rfl⟩ := addField_eq_ok hadd
  constructor <;> intro n <;> rw [listedTokens_modify_of_same]
  · rw [ownedTokens_modify]
    · exact h.nestedTypes n
    all_goals exact fun _ => rfl
  · exact fun _ => rfl
  · exact h.methods n
  · exact fun _ => rfl

theorem addMethod {flags : MethodFlags} {signature : MethodSig} {body : Option MethodBody}
    (h : m.Mirrored) (hadd : Module.addMethod owner name flags signature body m = .ok t m') :
    m'.Mirrored := by
  obtain ⟨r, method, hr, hlt, htoken, hdeclaring, rfl⟩ := addMethod_eq_ok hadd
  have hbelongs : ∀ n, method.belongsTo n = true ↔ r = n := fun n => by
    simp [MethodDef.belongsTo, hdeclaring, hr]
  constructor <;> intro n
  · rw [listedTokens_modify_of_same, ownedTokens_modify]
    · exact h.nestedTypes n
    all_goals exact fun _ => rfl
  · rw [listedTokens_modify_of_push method.token _ hlt, ownedTokens_push, h.methods]
    · simp only [hbelongs]
    · intro type
      rw [htoken]

end Mirrored

theorem Built.mirrored (h : m.Built) : m.Mirrored := by
  induction h with
  | empty name => exact ⟨fun _ => rfl, fun _ => rfl⟩
  | addType nameSpace name flags _ ih => exact ih.addType nameSpace name flags
  | addNestedType _ hadd ih => exact ih.addNestedType hadd
  | addField _ hadd ih => exact ih.addField hadd
  | addMethod _ hadd ih => exact ih.addMethod hadd
  | importMember member _ ih => exact ⟨ih.nestedTypes, ih.methods⟩

/-! ## Definitions by their owner -/

def methodsOf (m : Module) (type : TypeDef) : List MethodDef :=
  type.methods.toList.filterMap m.methodDef?

namespace Built

variable (hm : m.Built) (htypes : m.types.size < 0x1000000)

include hm htypes

theorem typeDef?_eq_some_iff {t : Token} (hn : m.types[n]? = some type) :
    m.typeDef? t = some type ↔ t.indexIn? .typeDef = some n := by
  constructor
  · intro h
    obtain ⟨k, hindex, hk⟩ := typeDef?_eq_some.mp h
    rwa [hm.linked.row_unique htypes hn hk]
  · exact fun h => typeDef?_eq_some.mpr ⟨n, h, hn⟩

theorem liesIn_iff (hn : m.types[n]? = some type) (inner : TypeDef) :
    inner.liesIn n = true ↔ m.enclosing? inner = some type := by
  unfold TypeDef.liesIn enclosing?
  cases inner.enclosing with
  | none => simp
  | some e => simpa using (hm.typeDef?_eq_some_iff htypes hn).symm

theorem belongsTo_iff (hn : m.types[n]? = some type) (method : MethodDef) :
    method.belongsTo n = true ↔ m.typeDef? method.declaringType = some type := by
  unfold MethodDef.belongsTo
  simpa using (hm.typeDef?_eq_some_iff htypes hn).symm

theorem typeDef?_token (h : type ∈ m.types.toList) : m.typeDef? type.token = some type := by
  obtain ⟨n, hn⟩ := List.mem_iff_getElem?.mp h
  rw [Array.getElem?_toList] at hn
  rw [hm.linked.typeToken hn]
  exact typeDef?_ofIndex htypes hn

omit htypes in
theorem methodDef?_token (hmethods : m.methods.size < 0x1000000) {method : MethodDef}
    (h : method ∈ m.methods.toList) : m.methodDef? method.token = some method := by
  obtain ⟨n, hn⟩ := List.mem_iff_getElem?.mp h
  rw [Array.getElem?_toList] at hn
  rw [hm.linked.methodToken hn]
  exact methodDef?_ofIndex hmethods hn

/-- A type lists the types that it is around, in the order they were declared. -/
theorem listedIn_eq_filter (hn : m.types[n]? = some type) : m.listedIn type =
    m.types.toList.filter fun inner => m.enclosing? inner = some type := by
  have htokens : type.nestedTypes.toList =
      (m.types.toList.filter (·.liesIn n)).map TypeDef.token := by
    have h := hm.mirrored.nestedTypes n
    rwa [listedTokens, hn] at h
  rw [listedIn, htokens, List.filterMap_map]
  have hfound : ∀ inner ∈ m.types.toList.filter (·.liesIn n),
      (m.typeDef? ∘ TypeDef.token) inner = some inner := fun inner h =>
    hm.typeDef?_token htypes (List.mem_filter.mp h).1
  rw [List.filterMap_congr hfound, List.filterMap_some]
  exact List.filter_congr fun inner _ =>
    Bool.eq_iff_iff.mpr ((hm.liesIn_iff htypes hn inner).trans decide_eq_true_iff.symm)

/-- A type lists the methods it declares, in the order they were declared. -/
theorem methodsOf_eq_filter (hmethods : m.methods.size < 0x1000000)
    (hn : m.types[n]? = some type) : m.methodsOf type =
      m.methods.toList.filter fun method => m.typeDef? method.declaringType = some type := by
  have htokens : type.methods.toList =
      (m.methods.toList.filter (·.belongsTo n)).map MethodDef.token := by
    have h := hm.mirrored.methods n
    rwa [listedTokens, hn] at h
  rw [methodsOf, htokens, List.filterMap_map]
  have hfound : ∀ method ∈ m.methods.toList.filter (·.belongsTo n),
      (m.methodDef? ∘ MethodDef.token) method = some method := fun method h =>
    hm.methodDef?_token hmethods (List.mem_filter.mp h).1
  rw [List.filterMap_congr hfound, List.filterMap_some]
  exact List.filter_congr fun method _ =>
    Bool.eq_iff_iff.mpr ((hm.belongsTo_iff htypes hn method).trans decide_eq_true_iff.symm)

end Built

end Module

end CilWeave
