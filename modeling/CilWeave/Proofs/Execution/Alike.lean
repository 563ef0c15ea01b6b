import CilWeave.Proofs.Execution.Paths
import CilWeave.Proofs.Module.Alike

/-
Runs do not depend on the numbers of the references.

Bodies that differ in the numbers of their references alone (`MethodBody.Alike`) take the same
steps, each with its own table (`Alike.step`). So what a body does is settled with its tokens: no
later table changes its runs (`MethodBody.Settled.steps_iff`, `MethodBody.Settled.runs_iff`).
-/

namespace CilWeave

open Execution

variable {refs refs' later : ReferenceTable}

theorem Operand.Alike.meaning?_eq {a a' : Operand} (h : a.Alike refs refs' a') :
    meaning? refs' a' = meaning? refs a := by
  cases h with
  | token hsame =>
    have hnames := hsame.toOption_eq
    cases hsame with
    | named hget hget' =>
      rw [meaning?_of_get hget, meaning?_of_get hget']
    | unnamed =>
      unfold meaning?
      simp only [hnames]
  | other hnone =>
    cases a with
    | token t => cases hnone
    | _ => rfl

namespace Instruction.Alike

variable {i i' : Instruction} (h : i.Alike refs refs' i')
include h

theorem said : i.said.Alike refs refs' i'.said :=
  ⟨h.expanded.op, rfl, h.expanded.operand⟩

theorem places_eq : i'.loads? = i.loads? ∧ i'.stores? = i.stores? ∧
    i'.addresses? = i.addresses? := by
  obtain ⟨op, operand, offset⟩ := i
  obtain ⟨op', operand', offset'⟩ := i'
  obtain ⟨rfl, -, hoperand⟩ := h
  cases hoperand with
  | token => cases op' <;> exact ⟨rfl, rfl, rfl⟩
  | other => exact ⟨rfl, rfl, rfl⟩

theorem calledMethod_iff {method : MethodRef} :
    i'.calledMethod refs' = .ok method ↔ i.calledMethod refs = .ok method := by
  unfold calledMethod
  rcases h.token?_cases with ⟨hnone, hnone'⟩ | ⟨t, t', ht, ht', hsame⟩
  · rw [hnone, hnone']
    exact ⟨nofun, nofun⟩
  · rw [ht, ht', Option.map_some, Option.map_some]
    rcases hsame.method_cases with ⟨found, hfound, hfound'⟩ | ⟨e, e', he, he'⟩
    · rw [hfound, hfound']
    · rw [he, he']
      exact ⟨nofun, nofun⟩

theorem operand_eq {text : String} (hoperand : i.operand = .string text) :
    i'.operand = .string text := by
  rcases h.operand.eq_or_token with heq | ⟨t, _, ht, -⟩
  · rw [heq, hoperand]
  · rw [ht] at hoperand
    cases hoperand

theorem field_eq_ok {t : Token} {field : FieldRef} (hoperand : i.operand = .token t)
    (hfield : refs.field t = .ok field) :
    ∃ t', i'.operand = .token t' ∧ refs'.field t' = .ok field := by
  obtain ⟨-, -, halike⟩ := h
  rw [hoperand] at halike
  generalize i'.operand = operand' at halike
  cases halike with
  | token hsame => exact ⟨_, rfl, hsame.field_iff.mpr hfield⟩
  | other hnone => cases hnone

end Instruction.Alike

namespace Execution

variable {δ ρ : Type} {w : World δ ρ} {b b' : MethodBody} {returnType : TypeSig}
  {s s' : State δ ρ}

theorem Does.of_alike {i i' : Instruction} {stack stack' : List (Value δ)} {m m' : Memory δ ρ}
    (halike : i.Alike refs refs' i') (h : Does w refs returnType i stack m stack' m') :
    Does w refs' returnType i' stack m stack' m' := by
  obtain ⟨hloads, hstores, haddresses⟩ := halike.places_eq
  cases h with
  | literal hop htext => exact .literal (halike.op.trans hop) (halike.operand_eq htext)
  | copy hop => exact .copy (halike.op.trans hop)
  | load hl hread => exact .load (hloads.trans hl) hread
  | store hl hread => exact .store (hstores.trans hl) hread
  | address hl hread => exact .address (haddresses.trans hl) hread
  | loadField hop ht hfield hread =>
    obtain ⟨t', ht', hfield'⟩ := halike.field_eq_ok ht hfield
    exact .loadField (halike.op.trans hop) ht' hfield' hread
  | storeField hop ht hfield hread =>
    obtain ⟨t', ht', hfield'⟩ := halike.field_eq_ok ht hfield
    exact .storeField (halike.op.trans hop) ht' hfield' hread
  | addressField hop ht hfield hread =>
    obtain ⟨t', ht', hfield'⟩ := halike.field_eq_ok ht hfield
    exact .addressField (halike.op.trans hop) ht' hfield' hread
  | get hcall hmethod haccess hread =>
    exact .get (halike.op ▸ hcall) (halike.calledMethod_eq_ok hmethod) haccess hread
  | set hcall hmethod haccess hread =>
    exact .set (halike.op ▸ hcall) (halike.calledMethod_eq_ok hmethod) haccess hread
  | update hcall hmethod htakes hread hupdates =>
    exact .update (halike.op ▸ hcall) (halike.calledMethod_eq_ok hmethod) htakes hread hupdates
  | perform hforeign hother hvalue heffect hmeaning hcontents hperforms hm' hcontents' =>
    refine .perform (halike.op ▸ hforeign) (fun hcall method hmethod => ?_) (halike.op ▸ hvalue)
      (halike.stackEffect_eq_ok heffect) (halike.operand.meaning?_eq.trans hmeaning) hcontents
      (halike.op ▸ hperforms) hm' hcontents'
    exact hother (halike.op ▸ hcall) method (halike.calledMethod_iff.mp hmethod)

end Execution

namespace MethodBody.Alike

variable {b b' : MethodBody} {δ ρ : Type} {w : World δ ρ} {returnType : TypeSig} {s s' : State δ ρ}

theorem fetch? (h : Alike refs refs' b b') {id : InstrId} {i : Instruction}
    (hi : b.fetch? id = some i) : ∃ i', b'.fetch? id = some i' ∧ i.Alike refs refs' i' := by
  obtain ⟨j, hj, rfl⟩ := exists_get?_of_fetch? hi
  obtain ⟨j', hj', halike⟩ := h.code.get? id j hj
  exact ⟨j'.said, Option.map_eq_some_iff.mpr ⟨j', hj', rfl⟩, halike.said⟩

theorem finallyBetween_eq (h : Alike refs refs' b b') (id target : InstrId) :
    b'.finallyBetween id target = b.finallyBetween id target := by
  unfold finallyBetween protects
  rw [h.handlers, h.code.ids]

/-- Bodies that are alike take the same steps. -/
theorem step (h : Alike refs refs' b b') (hstep : Step w b refs returnType s s') :
    Step w b' refs' returnType s s' := by
  cases hstep with
  | next hi hdoes hnext =>
    obtain ⟨i', hi', halike⟩ := h.fetch? hi
    exact .next hi' (hdoes.of_alike halike) ((h.code.next?_eq _).trans hnext)
  | jump hi hflow heffect hdecides ht =>
    obtain ⟨i', hi', halike⟩ := h.fetch? hi
    exact .jump hi' (halike.op ▸ hflow) (halike.stackEffect_eq_ok heffect) (halike.op ▸ hdecides)
      (halike.targets_eq ▸ ht)
  | stay hi hflow heffect hdecides hnext =>
    obtain ⟨i', hi', halike⟩ := h.fetch? hi
    exact .stay hi' (halike.op ▸ hflow) (halike.stackEffect_eq_ok heffect) (halike.op ▸ hdecides)
      ((h.code.next?_eq _).trans hnext)
  | branch hi hflow ht =>
    obtain ⟨i', hi', halike⟩ := h.fetch? hi
    exact .branch hi' (halike.op ▸ hflow) (halike.targets_eq.trans ht)
  | leave hi hflow ht hway =>
    obtain ⟨i', hi', halike⟩ := h.fetch? hi
    exact .leave hi' (halike.op ▸ hflow) (halike.targets_eq.trans ht)
      ((h.finallyBetween_eq _ _).symm ▸ hway)
  | endFinally hi hop =>
    obtain ⟨i', hi', halike⟩ := h.fetch? hi
    exact .endFinally hi' (halike.op.trans hop)

theorem steps (h : Alike refs refs' b b') (hsteps : Steps w b refs returnType s s') :
    Steps w b' refs' returnType s s' := by
  induction hsteps with
  | refl s => exact .refl s
  | head hstep _ ih => exact .head (h.step hstep) ih

end MethodBody.Alike

namespace MethodBody.Settled

variable {b : MethodBody} {δ ρ : Type} {w : World δ ρ} {returnType : TypeSig} {s s' : State δ ρ}

/-- A body with settled tokens runs the same with every later table. -/
theorem steps_iff (h : b.Settled refs) (hgrows : refs.GrowsTo later) :
    Steps w b later returnType s s' ↔ Steps w b refs returnType s s' :=
  ⟨(h.alike hgrows (.refl refs)).steps, (h.alike (.refl refs) hgrows).steps⟩

end MethodBody.Settled

end CilWeave
