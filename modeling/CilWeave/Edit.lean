import CilWeave.Error

/-
Edits: changes of a state that can fail.

An edit answers with a state whether it succeeds or fails: what had been changed when it
failed stays changed. `Edit.after` is that state. An edit of one part of a state is one of
the whole (`Edit.within`).
-/

namespace CilWeave

/-- A change of a state of type `σ` that can fail; the state is kept on failure. -/
abbrev Edit (σ α : Type) := EStateM Error σ α

namespace Edit

variable {σ τ α β : Type} {part : τ → σ} {put : τ → σ → τ}

/-- The state an edit leaves, whatever comes of it. -/
def after (edit : Edit σ α) (s : σ) : σ :=
  match edit s with
  | .ok _ s => s
  | .error _ s => s

def within (part : τ → σ) (put : τ → σ → τ) (edit : Edit σ α) : Edit τ α := fun t =>
  match edit (part t) with
  | .ok a s => .ok a (put t s)
  | .error e s => .error e (put t s)

theorem after_ok {edit : Edit σ α} {s s' : σ} {a : α} (h : edit s = .ok a s') :
    edit.after s = s' := by
  unfold after; rw [h]

theorem after_error {edit : Edit σ α} {s s' : σ} {e : Error} (h : edit s = .error e s') :
    edit.after s = s' := by
  unfold after; rw [h]

theorem eq_ok_of_run' {edit : Edit σ α} {s : σ} {a : α} (h : EStateM.run' edit s = some a) :
    edit s = .ok a (edit.after s) := by
  unfold EStateM.run' EStateM.run at h
  unfold after
  cases hedit : edit s with
  | error e s' => rw [hedit] at h; cases h
  | ok b s' => rw [hedit] at h; cases h; rfl

theorem eq_ok_of_isSome {edit : Edit σ α} {s : σ} (h : (EStateM.run' edit s).isSome = true) :
    ∃ a, edit s = .ok a (edit.after s) := by
  unfold EStateM.run' EStateM.run at h
  unfold after
  cases hedit : edit s with
  | error e s' => rw [hedit] at h; cases h
  | ok a s' => exact ⟨a, rfl⟩

theorem after_bind (edit : Edit σ α) (next : α → Edit σ β) (s : σ) :
    after (edit >>= next) s = match edit s with
      | .ok a s => (next a).after s
      | .error _ s => s := by
  show after (EStateM.bind edit next) s = _
  unfold after EStateM.bind
  cases edit s <;> rfl

theorem bind_eq_ok {edit : Edit σ α} {next : α → Edit σ β} {s s'' : σ} {b : β}
    (h : (edit >>= next) s = .ok b s'') :
    ∃ a s', edit s = .ok a s' ∧ next a s' = .ok b s'' := by
  have hbind : EStateM.bind edit next s = .ok b s'' := h
  unfold EStateM.bind at hbind
  cases hedit : edit s with
  | error e s' => rw [hedit] at hbind; cases hbind
  | ok a s' =>
    rw [hedit] at hbind
    exact ⟨a, s', rfl, hbind⟩

theorem map_eq_ok {edit : Edit σ α} {f : α → β} {s s' : σ} {b : β}
    (h : (f <$> edit) s = .ok b s') : ∃ a, edit s = .ok a s' ∧ b = f a := by
  have hmap : EStateM.map f edit s = .ok b s' := h
  unfold EStateM.map at hmap
  cases hedit : edit s with
  | error e s' => rw [hedit] at hmap; cases hmap
  | ok a s' =>
    rw [hedit] at hmap
    cases hmap
    exact ⟨a, rfl, rfl⟩

theorem bind_of_ok {edit : Edit σ α} {next : α → Edit σ β} {s s' : σ} {a : α}
    (h : edit s = .ok a s') : (edit >>= next) s = next a s' := by
  show EStateM.bind edit next s = _
  unfold EStateM.bind
  rw [h]

theorem bind_of_error {edit : Edit σ α} {next : α → Edit σ β} {s s' : σ} {e : Error}
    (h : edit s = .error e s') : (edit >>= next) s = .error e s' := by
  show EStateM.bind edit next s = _
  unfold EStateM.bind
  rw [h]

theorem get_bind (next : σ → Edit σ β) (s : σ) : (get >>= next : Edit σ β) s = next s s := rfl

theorem map_of_ok {edit : Edit σ α} {f : α → β} {s s' : σ} {a : α} (h : edit s = .ok a s') :
    (f <$> edit) s = .ok (f a) s' := by
  show EStateM.map f edit s = _
  unfold EStateM.map
  rw [h]

theorem within_of_ok {edit : Edit σ α} {t : τ} {s : σ} {a : α} (h : edit (part t) = .ok a s) :
    within part put edit t = .ok a (put t s) := by
  unfold within; rw [h]

theorem within_of_error {edit : Edit σ α} {t : τ} {s : σ} {e : Error}
    (h : edit (part t) = .error e s) : within part put edit t = .error e (put t s) := by
  unfold within; rw [h]

theorem within_eq_ok {edit : Edit σ α} {t t' : τ} {a : α} :
    within part put edit t = .ok a t' ↔ ∃ s, edit (part t) = .ok a s ∧ t' = put t s := by
  cases h : edit (part t) with
  | ok b s =>
    rw [within_of_ok h]
    constructor
    · rintro ⟨⟩
      exact ⟨s, rfl, rfl⟩
    · rintro ⟨_, ⟨⟩, rfl⟩
      rfl
  | error e s =>
    rw [within_of_error h]
    exact ⟨nofun, nofun⟩

theorem within_eq_error {edit : Edit σ α} {t t' : τ} {e : Error} :
    within part put edit t = .error e t' ↔ ∃ s, edit (part t) = .error e s ∧ t' = put t s := by
  cases h : edit (part t) with
  | ok b s =>
    rw [within_of_ok h]
    exact ⟨nofun, nofun⟩
  | error e s =>
    rw [within_of_error h]
    constructor
    · rintro ⟨⟩
      exact ⟨s, rfl, rfl⟩
    · rintro ⟨_, ⟨⟩, rfl⟩
      rfl

theorem after_within (edit : Edit σ α) (t : τ) :
    (within part put edit).after t = put t (edit.after (part t)) := by
  cases h : edit (part t) with
  | ok b s => rw [after_ok (within_of_ok h), after_ok h]
  | error e s => rw [after_error (within_of_error h), after_error h]

end Edit

end CilWeave
