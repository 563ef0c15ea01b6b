import CilWeave.Body

/-
Scratch locals: local variables that an edit of one method adds for values it
has to keep for a moment, one for each type of value. They are new locals, so
they share no index with a local the method declares itself.
-/

namespace CilWeave

/-- The scratch locals of one method. -/
structure ScratchLocals where
  /-- The index for each type, the latest first. -/
  entries : List (TypeSig × UInt16)
  deriving DecidableEq, Repr, Inhabited

namespace ScratchLocals

def empty : ScratchLocals := ⟨[]⟩

/-- How many scratch locals there are. -/
def size (scratch : ScratchLocals) : Nat := scratch.entries.length

def find? (scratch : ScratchLocals) (type : TypeSig) : Option UInt16 :=
  (scratch.entries.find? (·.1 == type)).map (·.2)

/-- The index of the scratch local of a type, which is declared among the locals on the
first request for the type. -/
def request (type : TypeSig) : Edit (ScratchLocals × Array TypeSig) UInt16 :=
  fun (scratch, locals) =>
    match scratch.find? type with
    | some index => .ok index (scratch, locals)
    | none =>
      match declareLocal type locals with
      | .ok index locals => .ok index (⟨(type, index) :: scratch.entries⟩, locals)
      | .error e locals => .error e (scratch, locals)

variable {scratch scratch' : ScratchLocals} {locals locals' : Array TypeSig} {type : TypeSig}
  {index : UInt16}

theorem find?_cons (scratch : ScratchLocals) (type : TypeSig) (index : UInt16) (type' : TypeSig) :
    find? ⟨(type, index) :: scratch.entries⟩ type' =
      if type = type' then some index else scratch.find? type' := by
  unfold find?
  rw [List.find?_cons]
  by_cases h : type = type'
  · simp only [h, beq_self_eq_true, Option.map_some, if_true]
  · simp only [beq_eq_false_iff_ne.mpr h, if_neg h]

theorem request_of_find? (h : scratch.find? type = some index) :
    request type (scratch, locals) = .ok index (scratch, locals) := by
  unfold request
  simp only [h]

/-- A request gives the scratch local that the type has, or the next local. -/
theorem request_eq_ok (h : request type (scratch, locals) = .ok index (scratch', locals')) :
    scratch.find? type = some index ∧ scratch' = scratch ∧ locals' = locals ∨
      scratch.find? type = none ∧ index.toNat = locals.size ∧
        scratch' = ⟨(type, index) :: scratch.entries⟩ ∧ locals' = locals.push type := by
  cases hfind : scratch.find? type with
  | some found =>
    rw [request_of_find? hfind] at h
    cases h
    exact .inl ⟨rfl, rfl, rfl⟩
  | none =>
    simp only [request, hfind] at h
    cases hdeclare : declareLocal type locals with
    | error e left =>
      rw [hdeclare] at h
      cases h
    | ok next grown =>
      rw [hdeclare] at h
      cases h
      obtain ⟨hindex, hlocals⟩ := declareLocal_eq_ok hdeclare
      exact .inr ⟨rfl, hindex, rfl, hlocals⟩

/-- A request fails exactly if the type has no scratch local and there is no room for one, and
then changes nothing. -/
theorem request_eq_error_iff {e : Error} :
    request type (scratch, locals) = .error e (scratch', locals') ↔
      scratch.find? type = none ∧ 65535 ≤ locals.size ∧ e = .malformed .tooManyLocals ∧
        scratch' = scratch ∧ locals' = locals := by
  cases hfind : scratch.find? type with
  | some found =>
    rw [request_of_find? hfind]
    exact ⟨nofun, nofun⟩
  | none =>
    cases hdeclare : declareLocal type locals with
    | error e' left =>
      obtain ⟨hsize, rfl, rfl⟩ := declareLocal_eq_error_iff.mp hdeclare
      have hrequest : request type (scratch, left) =
          .error (.malformed .tooManyLocals) (scratch, left) := by
        simp only [request, hfind, hdeclare]
      rw [hrequest]
      constructor
      · rintro ⟨⟩
        exact ⟨rfl, hsize, rfl, rfl, rfl⟩
      · rintro ⟨-, -, rfl, rfl, rfl⟩
        rfl
    | ok next grown =>
      refine ⟨fun h => ?_, fun h => ?_⟩
      · simp only [request, hfind, hdeclare] at h
        cases h
      · rw [declareLocal_eq_error_iff.mpr ⟨h.2.1, h.2.2.1, rfl⟩] at hdeclare
        cases hdeclare

end ScratchLocals

end CilWeave
