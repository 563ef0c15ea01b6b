import CilWeave.Rewrite.Scratch

/-
Scratch locals are kept apart.

A body is asked for locals in two ways, in any order: for a new local, and for the scratch
local of a type. `Gives` lists how a local comes to be given, and a request that gives none
changes nothing (`serve_cases`). From a fresh set of scratch locals on, whatever is asked for, a
type has one scratch local, which is a new local of that type and that of no other, and only a
type without one can be refused (`keepsApart_serveEach`).
-/

namespace CilWeave

/-- A request for a local of a body. -/
inductive LocalRequest where
  /-- A new local of this type. -/
  | declare (type : TypeSig)
  /-- The scratch local of this type. -/
  | scratch (type : TypeSig)
  deriving DecidableEq, Repr, Inhabited

/-- A body and the scratch locals among its locals. -/
structure Allocation where
  /-- The body. -/
  body : MethodBody
  /-- Its scratch locals. -/
  scratch : ScratchLocals

namespace Allocation

/-- The body, with a fresh set of scratch locals. -/
def start (b : MethodBody) : Allocation := ⟨b, .empty⟩

/-- With some more locals, behind the others. -/
def append (a : Allocation) (locals : Array TypeSig) : Allocation :=
  { a with body := { a.body with locals := a.body.locals ++ locals } }

/-- Asks for a local; its index. -/
def serve : LocalRequest → Edit Allocation UInt16
  | .declare type => .within body (fun a body => { a with body }) (MethodBody.addLocal type)
  | .scratch type =>
    .within (fun a => (a.scratch, a.body.locals))
      (fun a (scratch, locals) => ⟨{ a.body with locals }, scratch⟩) (ScratchLocals.request type)

/-- What some requests give, one after the other; one that fails does not end the others. -/
def serveEach : List LocalRequest → Allocation → List (Except Error UInt16) × Allocation
  | [], a => ([], a)
  | r :: rest, a =>
    match serve r a with
    | .ok index a =>
      let (answers, a) := serveEach rest a
      (.ok index :: answers, a)
    | .error e a =>
      let (answers, a) := serveEach rest a
      (.error e :: answers, a)

variable {a a₁ a' : Allocation} {r : LocalRequest} {type type' : TypeSig} {index index' : UInt16}
  {e : Error} {log : List (LocalRequest × Except Error UInt16)} {first : Nat}

/-! ## One request -/

/-- How a request comes to be given a local. -/
inductive Gives (a : Allocation) : LocalRequest → UInt16 → Allocation → Prop where
  | declared {type : TypeSig} {index : UInt16} : index.toNat = a.body.locals.size →
      Gives a (.declare type) index (a.append #[type])
  | known {type : TypeSig} {index : UInt16} : a.scratch.find? type = some index →
      Gives a (.scratch type) index a
  | added {type : TypeSig} {index : UInt16} : a.scratch.find? type = none →
      index.toNat = a.body.locals.size →
      Gives a (.scratch type) index
        { a.append #[type] with scratch := ⟨(type, index) :: a.scratch.entries⟩ }

theorem push_eq_append (a : Allocation) (type : TypeSig) :
    { a.body with locals := a.body.locals.push type } = (a.append #[type]).body := by
  unfold append
  rw [Array.push_eq_append]

/-- A request for the scratch local of a type fails exactly if the type has none and there is no
room for one, and then changes nothing. -/
theorem serve_scratch_eq_error_iff : serve (.scratch type) a = .error e a' ↔
    a.scratch.find? type = none ∧ 65535 ≤ a.body.locals.size ∧
      e = .malformed .tooManyLocals ∧ a' = a := by
  rw [serve, Edit.within_eq_error]
  constructor
  · rintro ⟨⟨scratch, locals⟩, hrequest, rfl⟩
    obtain ⟨hfind, hsize, rfl, rfl, rfl⟩ := ScratchLocals.request_eq_error_iff.mp hrequest
    exact ⟨hfind, hsize, rfl, rfl⟩
  · rintro ⟨hfind, hsize, rfl, rfl⟩
    exact ⟨(a'.scratch, a'.body.locals),
      ScratchLocals.request_eq_error_iff.mpr ⟨hfind, hsize, rfl, rfl, rfl⟩, rfl⟩

/-- A request gives a local or changes nothing. -/
theorem serve_cases (r : LocalRequest) (a : Allocation) :
    (∃ index a', serve r a = .ok index a' ∧ Gives a r index a') ∨
      ∃ e, serve r a = .error e a := by
  cases r with
  | declare type =>
    rw [serve, MethodBody.addLocal]
    cases hdeclare : declareLocal type a.body.locals with
    | error e locals =>
      obtain ⟨-, -, rfl⟩ := declareLocal_eq_error_iff.mp hdeclare
      exact .inr ⟨e, Edit.within_of_error (Edit.within_of_error hdeclare)⟩
    | ok index locals =>
      obtain ⟨hindex, rfl⟩ := declareLocal_eq_ok hdeclare
      refine .inl ⟨index, a.append #[type], ?_, .declared hindex⟩
      rw [Edit.within_of_ok (Edit.within_of_ok hdeclare), push_eq_append]
      rfl
  | scratch type =>
    rw [serve]
    cases hrequest : ScratchLocals.request type (a.scratch, a.body.locals) with
    | error e left =>
      obtain ⟨scratch, locals⟩ := left
      obtain ⟨-, -, -, rfl, rfl⟩ := ScratchLocals.request_eq_error_iff.mp hrequest
      exact .inr ⟨e, Edit.within_eq_error.mpr ⟨_, hrequest, rfl⟩⟩
    | ok index left =>
      obtain ⟨scratch, locals⟩ := left
      refine .inl ⟨index, ⟨{ a.body with locals }, scratch⟩,
        Edit.within_eq_ok.mpr ⟨_, hrequest, rfl⟩, ?_⟩
      obtain ⟨hfind, rfl, rfl⟩ | ⟨hfind, hindex, rfl, rfl⟩ := ScratchLocals.request_eq_ok hrequest
      · exact .known hfind
      · rw [push_eq_append]
        exact .added hfind hindex

theorem Gives.find?_iff (h : Gives a r index a') : a'.scratch.find? type' = some index' ↔
    a.scratch.find? type' = some index' ∨ .scratch type' = r ∧ index' = index := by
  cases h with
  | declared => exact ⟨.inl, fun h => h.resolve_right fun h => nomatch h.1⟩
  | known hfind =>
    refine ⟨.inl, fun h => h.elim id ?_⟩
    rintro ⟨hr, rfl⟩
    cases hr
    exact hfind
  | @added type _ hfind =>
    rw [ScratchLocals.find?_cons]
    by_cases htype : type = type'
    · subst htype
      rw [if_pos rfl, hfind]
      exact ⟨fun h => .inr ⟨rfl, (Option.some.inj h).symm⟩,
        fun h => congrArg some (h.resolve_left nofun).2.symm⟩
    · rw [if_neg htype]
      exact ⟨.inl, fun h => h.resolve_right fun h => htype (LocalRequest.scratch.inj h.1).symm⟩

theorem Gives.body (h : Gives a r index a') : ∃ added, a'.body = (a.append added).body := by
  cases h with
  | declared => exact ⟨_, rfl⟩
  | known => exact ⟨#[], by rw [append, Array.append_empty]⟩
  | added => exact ⟨_, rfl⟩

theorem Gives.size_le (h : Gives a r index a') : a.body.locals.size ≤ a'.body.locals.size := by
  obtain ⟨added, hbody⟩ := h.body
  rw [hbody, append, Array.size_append]
  exact Nat.le_add_right _ _

theorem Gives.known_or_next (h : Gives a r index a') :
    (∃ type, .scratch type = r ∧ a.scratch.find? type = some index) ∨
      index.toNat = a.body.locals.size ∧ a'.body.locals.size = a.body.locals.size + 1 := by
  cases h with
  | declared hindex => exact .inr ⟨hindex, Array.size_append⟩
  | known hfind => exact .inl ⟨_, rfl, hfind⟩
  | added _ hindex => exact .inr ⟨hindex, Array.size_append⟩

/-- The scratch locals are locals of their types, behind the first ones of the body. -/
structure Sound (first : Nat) (a : Allocation) : Prop where
  start : first ≤ a.body.locals.size
  fresh : ∀ {type : TypeSig} {index : UInt16}, a.scratch.find? type = some index →
    first ≤ index.toNat
  typed : ∀ {type : TypeSig} {index : UInt16}, a.scratch.find? type = some index →
    a.body.locals[index.toNat]? = some type

theorem sound_start (b : MethodBody) : Sound b.locals.size (start b) :=
  ⟨Nat.le_refl _, nofun, nofun⟩

theorem Sound.lt (h : a.Sound first) (hfind : a.scratch.find? type = some index) :
    index.toNat < a.body.locals.size := (Array.getElem?_eq_some_iff.mp (h.typed hfind)).1

theorem Sound.given (h : a.Sound first) (hgives : Gives a r index a') : a'.Sound first := by
  obtain ⟨added, hbody⟩ := hgives.body
  have hlocals : a'.body.locals = a.body.locals ++ added := by rw [hbody]; rfl
  have hold : ∀ {i : Nat} {type : TypeSig}, a.body.locals[i]? = some type →
      a'.body.locals[i]? = some type := by
    intro i type htype
    rw [hlocals, Array.getElem?_append_left (Array.getElem?_eq_some_iff.mp htype).1, htype]
  -- A scratch local was sound before, or it is the one given, which is the new last local.
  refine ⟨Nat.le_trans h.start hgives.size_le, fun {type' index'} hfind => ?_,
    fun {type' index'} hfind => ?_⟩
  · obtain hfind | ⟨rfl, rfl⟩ := hgives.find?_iff.mp hfind
    · exact h.fresh hfind
    · cases hgives with
      | known hfind => exact h.fresh hfind
      | added _ hindex => exact hindex ▸ h.start
  · obtain hfind | ⟨rfl, rfl⟩ := hgives.find?_iff.mp hfind
    · exact hold (h.typed hfind)
    · cases hgives with
      | known hfind => exact h.typed hfind
      | added _ hindex =>
        show (a.body.locals ++ #[type'])[index'.toNat]? = some type'
        rw [hindex, ← Array.push_eq_append, Array.getElem?_push_size]

/-! ## Requests one after the other -/

/-- Requests with their answers, one after the other. -/
inductive Serves :
    Allocation → List (LocalRequest × Except Error UInt16) → Allocation → Prop where
  | nil (a : Allocation) : Serves a [] a
  | given {a a₁ a' : Allocation} {r : LocalRequest} {index : UInt16}
      {log : List (LocalRequest × Except Error UInt16)} :
      Gives a r index a₁ → Serves a₁ log a' → Serves a ((r, .ok index) :: log) a'
  | refused {a a' : Allocation} {r : LocalRequest} {e : Error}
      {log : List (LocalRequest × Except Error UInt16)} :
      Serves a log a' → Serves a ((r, .error e) :: log) a'

theorem length_serveEach : ∀ (requests : List LocalRequest) (a : Allocation),
    (serveEach requests a).1.length = requests.length
  | [], _ => rfl
  | r :: rest, a => by
    rw [serveEach]
    cases serve r a with
    | ok index a₁ => exact congrArg (· + 1) (length_serveEach rest a₁)
    | error e a₁ => exact congrArg (· + 1) (length_serveEach rest a₁)

theorem serves_serveEach : ∀ (requests : List LocalRequest) (a : Allocation),
    Serves a (requests.zip (serveEach requests a).1) (serveEach requests a).2
  | [], a => .nil a
  | r :: rest, a => by
    rw [serveEach]
    obtain ⟨index, a₁, hserve, hgives⟩ | ⟨e, hserve⟩ := serve_cases r a
    · rw [hserve]
      exact .given hgives (serves_serveEach rest a₁)
    · rw [hserve]
      exact .refused (serves_serveEach rest a)

theorem serveEach_append : ∀ (before later : List LocalRequest) (a : Allocation),
    (serveEach (before ++ later) a).2 = (serveEach later (serveEach before a).2).2
  | [], _, _ => rfl
  | r :: before, later, a => by
    rw [List.cons_append, serveEach, serveEach]
    cases serve r a with
    | ok index a₁ => exact serveEach_append before later a₁
    | error e a₁ => exact serveEach_append before later a₁

namespace Serves

theorem body (h : Serves a log a') : ∃ added, a'.body = (a.append added).body := by
  induction h with
  | nil a => exact ⟨#[], by rw [append, Array.append_empty]⟩
  | @given a a₁ a' _ _ _ hgives _ ih =>
    obtain ⟨new, hnew⟩ := hgives.body
    obtain ⟨added, hadded⟩ := ih
    refine ⟨new ++ added, ?_⟩
    rw [hadded]
    simp only [append, hnew, Array.append_assoc]
  | refused _ ih => exact ih

theorem sound (h : Serves a log a') (hsound : a.Sound first) : a'.Sound first := by
  induction h with
  | nil => exact hsound
  | given hgives _ ih => exact ih (hsound.given hgives)
  | refused _ ih => exact ih hsound

theorem find?_iff (h : Serves a log a') : a'.scratch.find? type = some index ↔
    a.scratch.find? type = some index ∨ (.scratch type, .ok index) ∈ log := by
  induction h with
  | nil => simp only [List.not_mem_nil, or_false]
  | given hgives _ ih =>
    rw [ih, hgives.find?_iff, List.mem_cons, or_assoc, Prod.mk.injEq, Except.ok.injEq]
  | refused _ ih =>
    rw [ih, List.mem_cons, Prod.mk.injEq]
    simp only [reduceCtorEq, and_false, false_or]

/-- An index that is given is that of a scratch local there was, or is behind the locals there
were. -/
theorem known_or_le (h : Serves a log a') (hmem : (r, .ok index) ∈ log) :
    (∃ type, .scratch type = r ∧ a.scratch.find? type = some index) ∨
      a.body.locals.size ≤ index.toNat := by
  induction h with
  | nil => exact absurd hmem List.not_mem_nil
  | refused _ ih =>
    obtain heq | hmem := List.mem_cons.mp hmem
    · cases heq
    · exact ih hmem
  | given hgives _ ih =>
    have hgiven := hgives.known_or_next.imp_right fun h => Nat.le_of_eq h.1.symm
    obtain heq | hmem := List.mem_cons.mp hmem
    · cases heq
      exact hgiven
    · obtain ⟨type, rfl, hfind⟩ | hle := ih hmem
      · obtain hfind | ⟨rfl, rfl⟩ := hgives.find?_iff.mp hfind
        · exact .inl ⟨type, rfl, hfind⟩
        · exact hgiven
      · exact .inr (Nat.le_trans hgives.size_le hle)

/-- No index is given both for a scratch local and for a new local. -/
theorem apart (h : Serves a log a') (hsound : a.Sound first)
    (hscratch : (.scratch type, .ok index) ∈ log)
    (hdeclare : (.declare type', .ok index') ∈ log) : index ≠ index' := by
  induction h with
  | nil => exact absurd hscratch List.not_mem_nil
  | refused _ ih =>
    obtain heq | hscratch := List.mem_cons.mp hscratch
    · cases heq
    · obtain heq | hdeclare := List.mem_cons.mp hdeclare
      · cases heq
      · exact ih hsound hscratch hdeclare
  | given hgives hrest ih =>
    obtain heq | hscratch' := List.mem_cons.mp hscratch
    · obtain heq' | hdeclare' := List.mem_cons.mp hdeclare
      · cases heq
        cases heq'
      -- The scratch local is there when the new local is declared behind it.
      · cases heq
        have hlt := (hsound.given hgives).lt (hgives.find?_iff.mpr (.inr ⟨rfl, rfl⟩))
        obtain ⟨_, heq, -⟩ | hle := hrest.known_or_le hdeclare'
        · cases heq
        · rintro rfl
          exact Nat.not_le_of_lt hlt hle
    · obtain heq | hdeclare' := List.mem_cons.mp hdeclare
      -- The scratch local was there before the new local, or comes behind it.
      · cases heq
        obtain ⟨_, heq, -⟩ | ⟨hindex, hsize⟩ := hgives.known_or_next
        · cases heq
        · obtain ⟨type, -, hfind⟩ | hle := hrest.known_or_le hscratch'
          · obtain hfind | ⟨heq, -⟩ := hgives.find?_iff.mp hfind
            · rintro rfl
              exact Nat.ne_of_lt (hsound.lt hfind) hindex
            · cases heq
          · rintro rfl
            omega
      · exact ih (hsound.given hgives) hscratch' hdeclare'

end Serves

/-! ## The result -/

/-- What holds after some requests and their answers, from a fresh set of scratch locals of a
body on. -/
structure KeepsApart (b : MethodBody) (requests : List LocalRequest)
    (answers : List (Except Error UInt16)) (a : Allocation) : Prop where
  /-- Each request has its answer. -/
  answered : answers.length = requests.length
  /-- A scratch local is a local of the body, and of its type. -/
  typed : ∀ type index, (.scratch type, .ok index) ∈ requests.zip answers →
    ∃ h : index.toNat < a.body.locals.size, a.body.locals[index.toNat] = type
  /-- It is none of the locals that there were at the start. -/
  fresh : ∀ type index, (.scratch type, .ok index) ∈ requests.zip answers →
    b.locals.size ≤ index.toNat
  /-- Requests for scratch locals give the same one exactly if they are for the same type. -/
  same : ∀ type index type' index', (.scratch type, .ok index) ∈ requests.zip answers →
    (.scratch type', .ok index') ∈ requests.zip answers → (index = index' ↔ type = type')
  /-- None of the new locals that were asked for is a scratch local. -/
  apart : ∀ type index type' index', (.scratch type, .ok index) ∈ requests.zip answers →
    (.declare type', .ok index') ∈ requests.zip answers → index ≠ index'
  /-- One more request for a scratch local that was given gives it again and changes nothing. -/
  again : ∀ type index, (.scratch type, .ok index) ∈ requests.zip answers →
    serve (.scratch type) a = .ok index a
  /-- One more request for a scratch local fails exactly if none was given for the type and there
  is no room for one, and then changes nothing. -/
  refused : ∀ type e a', serve (.scratch type) a = .error e a' ↔
    (∀ index, (.scratch type, .ok index) ∉ requests.zip answers) ∧
      65535 ≤ a.body.locals.size ∧ e = .malformed .tooManyLocals ∧ a' = a
  /-- From any request on, locals were only added behind the others, and nothing else of the body
  changed. -/
  added : ∀ before later, requests = before ++ later →
    ∃ locals, a.body = ((serveEach before (start b)).2.append locals).body

/-- Whatever locals a body is asked for, from a fresh set of scratch locals on: each type that
asks for one has one scratch local, a new local of that type and of no other, unless there is no
room for one. -/
theorem keepsApart_serveEach (b : MethodBody) (requests : List LocalRequest) :
    KeepsApart b requests (serveEach requests (start b)).1 (serveEach requests (start b)).2 := by
  have hserves := serves_serveEach requests (start b)
  have hsound : Sound b.locals.size (serveEach requests (start b)).2 :=
    hserves.sound (sound_start b)
  have hfind : ∀ {type : TypeSig} {index : UInt16},
      (serveEach requests (start b)).2.scratch.find? type = some index ↔
        (.scratch type, .ok index) ∈ requests.zip (serveEach requests (start b)).1 := by
    intro type index
    rw [hserves.find?_iff]
    exact or_iff_right nofun
  refine
    { answered := length_serveEach requests _
      typed := fun type index h => Array.getElem?_eq_some_iff.mp (hsound.typed (hfind.mpr h))
      fresh := fun type index h => hsound.fresh (hfind.mpr h)
      same := fun type index type' index' h h' => ⟨?_, ?_⟩
      apart := fun type index type' index' h h' => hserves.apart (sound_start b) h h'
      again := fun type index h => ?_
      refused := fun type e a' => ?_
      added := fun before later hsplit => ?_ }
  -- One index has one type among the locals, and one type has one index among the scratch locals.
  · rintro rfl
    exact Option.some.inj ((hsound.typed (hfind.mpr h)).symm.trans (hsound.typed (hfind.mpr h')))
  · rintro rfl
    exact Option.some.inj ((hfind.mpr h).symm.trans (hfind.mpr h'))
  · rw [serve]
    exact Edit.within_eq_ok.mpr ⟨_, ScratchLocals.request_of_find? (hfind.mpr h), rfl⟩
  · rw [serve_scratch_eq_error_iff, Option.eq_none_iff_forall_ne_some]
    simp only [ne_eq, hfind]
  · rw [hsplit, serveEach_append]
    exact (serves_serveEach later _).body

/-- A type that is built once more has its scratch local already, and a new local in between
takes none away. -/
example : (serveEach
    [.scratch (.genericInst (.ofClass "List") [.int32]), .declare .int32,
      .scratch (.genericInst (.ofClass "List") [.int32]), .scratch .int32]
    (start { MethodBody.empty with locals := #[.object] })).1 = [.ok 1, .ok 2, .ok 1, .ok 3] := rfl

end Allocation

end CilWeave
