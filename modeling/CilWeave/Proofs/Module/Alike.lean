import CilWeave.Proofs.Pass.Patched
import CilWeave.Proofs.Renumbering.Alike

/-
Modules that differ in the numbers of their references alone.

The definitions are the same and every body is alike (`Module.Alike`). A token that names
nothing yet may come to name what is imported next, so what a body says is fixed only if its
tokens are settled (`Module.Settled`); then it is the same with every later table.
-/

namespace CilWeave

variable {refs later later' : ReferenceTable}

theorem Option.Rel.imp {α β : Type} {R S : α → β → Prop} (h : ∀ a b, R a b → S a b) :
    ∀ {o : Option α} {o' : Option β}, Option.Rel R o o' → Option.Rel S o o'
  | _, _, .none => .none
  | _, _, .some hr => .some (h _ _ hr)

/-- Every token of the code names a member of the table, or none in any table. -/
def MethodBody.Settled (refs : ReferenceTable) (b : MethodBody) : Prop :=
  ∀ id i t, b.code.get? id = some i → i.token? = some t → refs.Settles t

theorem MethodBody.Settled.alike {b : MethodBody} (h : b.Settled refs)
    (hlater : refs.GrowsTo later) (hlater' : refs.GrowsTo later') : b.Alike later later' b :=
  .refl fun id i t hi ht => (h id i t hi ht).sameMember hlater hlater'

/-- The members that the instructions name, in order. -/
def MethodBody.members (refs : ReferenceTable) (b : MethodBody) : List (Option MemberRef) :=
  b.code.instructions.map fun i => i.token?.bind fun t => (refs.get t).toOption

theorem MethodBody.Alike.members_eq {refs' : ReferenceTable} {b b' : MethodBody}
    (h : b.Alike refs refs' b') : b'.members refs' = b.members refs := by
  unfold members
  rw [← InstructionList.map_snd_entries, ← InstructionList.map_snd_entries, List.map_map,
    List.map_map, ← List.filterMap_eq_map, ← List.filterMap_eq_map]
  refine h.code.filterMap_eq fun id i i' halike => congrArg some ?_
  simp only [Function.comp_apply]
  rcases halike.token?_cases with ⟨hnone, hnone'⟩ | ⟨t, t', ht, ht', hsame⟩
  · rw [hnone, hnone']
    rfl
  · rw [ht, ht', Option.bind_some, Option.bind_some, hsame.toOption_eq]

/-- Equal methods, with the tokens in their bodies compared by the members they name. -/
structure MethodDef.Alike (refs refs' : ReferenceTable) (method method' : MethodDef) : Prop where
  token : method'.token = method.token
  declaringType : method'.declaringType = method.declaringType
  name : method'.name = method.name
  flags : method'.flags = method.flags
  signature : method'.signature = method.signature
  body : Option.Rel (MethodBody.Alike refs refs') method.body method'.body

theorem MethodDef.Alike.mono {refs' : ReferenceTable} {method method' : MethodDef}
    (h : method.Alike refs refs' method') (hlater : refs.GrowsTo later)
    (hlater' : refs'.GrowsTo later') : method.Alike later later' method' :=
  { h with body := Option.Rel.imp (fun _ _ hb => hb.mono hlater hlater') h.body }

theorem MethodDef.alike_withBody {refs refs' : ReferenceTable} (method : MethodDef)
    {b b' : MethodBody} (h : b.Alike refs refs' b') :
    Alike refs refs' { method with body := some b } { method with body := some b' } :=
  ⟨rfl, rfl, rfl, rfl, rfl, .some h⟩

namespace Module

/-- Equal modules, with the tokens in the bodies compared by the members they name. -/
structure Alike (m m' : Module) : Prop where
  name : m'.name = m.name
  types : m'.types = m.types
  fields : m'.fields = m.fields
  size : m'.methods.size = m.methods.size
  methods : ∀ (n : Nat) (method : MethodDef), m.methods[n]? = some method →
    ∃ method', m'.methods[n]? = some method' ∧ method.Alike m.references m'.references method'

/-- The method that a token names is the same, but for the numbers of references. -/
def AlikeAt (m m' : Module) (t : Token) : Prop :=
  Option.Rel (MethodDef.Alike m.references m'.references) (m.methodDef? t) (m'.methodDef? t)

/-- Every token of every body names a member, or none in any table. -/
def Settled (m : Module) : Prop := ∀ (n : Nat) (method : MethodDef) (body : MethodBody),
  m.methods[n]? = some method → method.body = some body → body.Settled m.references

variable {m m' m'' : Module} {t : Token} {method : MethodDef} {b : MethodBody}

/-- A module is settled if no token of a table of members is dangling. -/
theorem settled_of_resolved (h : m.methods.toList.all fun method => method.body.all fun b =>
    b.code.instructions.all fun i => i.token?.all fun t =>
      (m.references.get t).toOption.isSome || !(t.isIn .memberRef || t.isIn .methodSpec)) :
    m.Settled := by
  intro n method b hn hbody id i t hi ht
  have hmethod : method ∈ m.methods.toList := by
    rw [← Array.getElem?_toList] at hn
    exact List.mem_of_getElem? hn
  have hresolved := List.all_eq_true.mp h method hmethod
  rw [hbody] at hresolved
  have htoken := List.all_eq_true.mp hresolved i (InstructionList.mem_instructions.mpr ⟨id, hi⟩)
  rw [ht] at htoken
  rw [Option.all_some, Bool.or_eq_true, Bool.not_eq_true'] at htoken
  rcases htoken with hresolved | hother
  · cases hget : m.references.get t with
    | ok member => exact .inl ⟨member, hget⟩
    | error e => rw [hget] at hresolved; cases hresolved
  · exact .inr (Token.namesNone_of_isIn hother)

theorem Settled.body (h : m.Settled) (ht : m.methodDef? t = some method)
    (hbody : method.body = some b) : b.Settled m.references := by
  obtain ⟨n, -, hn⟩ := methodDef?_eq_some.mp ht
  exact h n method b hn hbody

theorem Settled.alikeAt (h : m.Settled) (hkept : m'.methodDef? t = m.methodDef? t)
    (hkept' : m''.methodDef? t = m.methodDef? t) (hlater : m.references.GrowsTo m'.references)
    (hlater' : m.references.GrowsTo m''.references) : m'.AlikeAt m'' t := by
  unfold AlikeAt
  rw [hkept, hkept']
  cases ht : m.methodDef? t with
  | none => exact .none
  | some method =>
    refine .some ⟨rfl, rfl, rfl, rfl, rfl, ?_⟩
    cases hbody : method.body with
    | none => exact .none
    | some b => exact .some ((h.body ht hbody).alike hlater hlater')

/-- The members that the body of a method names. -/
def membersAt (m : Module) (t : Token) : Option (List (Option MemberRef)) :=
  ((m.methodDef? t).bind MethodDef.body).map (MethodBody.members m.references)

theorem AlikeAt.membersAt_eq (h : m.AlikeAt m' t) : m'.membersAt t = m.membersAt t := by
  unfold AlikeAt at h
  unfold membersAt
  generalize m.methodDef? t = found at h ⊢
  generalize m'.methodDef? t = found' at h ⊢
  cases h with
  | none => rfl
  | @some method method' halike =>
    have hbody := halike.body
    show method'.body.map _ = method.body.map _
    generalize method.body = b at hbody ⊢
    generalize method'.body = b' at hbody ⊢
    cases hbody with
    | none => rfl
    | some hbody => exact congrArg some hbody.members_eq

theorem AlikeAt.of_kept {m₁ : Module} (h : m'.AlikeAt m₁ t)
    (hkept : m''.methodDef? t = m₁.methodDef? t) (hlater : m₁.references.GrowsTo m''.references) :
    m'.AlikeAt m'' t := by
  unfold AlikeAt at h ⊢
  rw [hkept]
  exact Option.Rel.imp (fun _ _ halike => halike.mono (.refl _) hlater) h

theorem Alike.alikeAt (h : m'.Alike m'') (t : Token) : m'.AlikeAt m'' t :=
  rel_methodDef? h.size h.methods t

theorem Patched.alike (h : m.Patched m') (h' : m.Patched m'') (hfits : m.methods.size < 0x1000000)
    (hmethods : ∀ t, m'.AlikeAt m'' t) : m'.Alike m'' := by
  refine ⟨h'.name.trans h.name.symm, h'.types.trans h.types.symm, h'.fields.trans h.fields.symm,
    h'.size.trans h.size.symm, fun n method' hn => ?_⟩
  have hlt := lt_size_of_getElem? hn
  rw [h.size] at hlt
  have halike := hmethods (.ofIndex .methodDef n)
  unfold AlikeAt methodDef? at halike
  rw [Token.indexIn?_ofIndex (by omega)] at halike
  change Option.Rel _ m'.methods[n]? m''.methods[n]? at halike
  rw [hn] at halike
  generalize m''.methods[n]? = found at halike ⊢
  cases halike with
  | some halike => exact ⟨_, rfl, halike⟩

end Module

end CilWeave
