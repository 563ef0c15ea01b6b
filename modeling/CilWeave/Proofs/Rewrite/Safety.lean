import CilWeave.Proofs.Encoding.Layout
import CilWeave.Proofs.References
import CilWeave.Rewrite.Editing

/-
What an edit of a method body can leave behind.

`Edit.Ensures` speaks of the state an edit leaves, whether it succeeds or fails, so one
statement covers every outcome. An edit of a draft that only adds references becomes safe
when it is run as a transaction: the body is then as it was or verified, in all cases
(`Draft.safe_transact`).
-/

namespace CilWeave

namespace Edit

variable {σ α β : Type} {R : σ → σ → Prop}

/-- Whatever comes of the edit, `R` holds between the state before it and after it. -/
def Ensures (edit : Edit σ α) (R : σ → σ → Prop) : Prop := ∀ s, R s (edit.after s)

theorem Ensures.of_ok {edit : Edit σ α} (h : edit.Ensures R) {s s' : σ} {a : α}
    (hok : edit s = .ok a s') : R s s' := after_ok hok ▸ h s

theorem Ensures.of_error {edit : Edit σ α} (h : edit.Ensures R) {s s' : σ} {e : Error}
    (herr : edit s = .error e s') : R s s' := after_error herr ▸ h s

theorem ensures_pure (hrefl : ∀ s, R s s) (a : α) : Ensures (pure a : Edit σ α) R :=
  fun s => hrefl s

theorem Ensures.bind {edit : Edit σ α} {next : α → Edit σ β}
    (htrans : ∀ s s' s'', R s s' → R s' s'' → R s s'') (h : edit.Ensures R)
    (h' : ∀ a, (next a).Ensures R) : Ensures (edit >>= next) R := by
  intro s
  rw [after_bind]
  cases hedit : edit s with
  | ok a s' => exact htrans s s' _ (h.of_ok hedit) (h' a s')
  | error e s' => exact h.of_error hedit

theorem Ensures.map {edit : Edit σ α} (h : edit.Ensures R) (f : α → β) :
    Ensures (f <$> edit) R := by
  intro s
  have heq : after (f <$> edit) s = edit.after s := by
    show after (EStateM.map f edit) s = _
    unfold after EStateM.map
    cases edit s <;> rfl
  rw [heq]
  exact h s

/-- Whatever comes of the edit, references are only added. -/
def OnlyImports (refs : σ → ReferenceTable) (edit : Edit σ α) : Prop :=
  edit.Ensures fun s s' => (refs s).GrowsTo (refs s')

variable {refs : σ → ReferenceTable}

theorem OnlyImports.bind {edit : Edit σ α} {next : α → Edit σ β} (h : OnlyImports refs edit)
    (h' : ∀ a, OnlyImports refs (next a)) : OnlyImports refs (edit >>= next) :=
  Ensures.bind (fun _ _ _ => .trans) h h'

theorem onlyImports_pure (a : α) : OnlyImports refs (pure a : Edit σ α) :=
  ensures_pure (fun s => .refl (refs s)) a

/-- Whatever comes of the edit, `R` holds between the references before it and after it. -/
def Imports (R : ReferenceTable → ReferenceTable → Prop) (refs : σ → ReferenceTable)
    (edit : Edit σ α) : Prop :=
  edit.Ensures fun s s' => R (refs s) (refs s')

end Edit

/-! ## Bodies and references that grow -/

theorem MethodBody.IsVerified.of_growsTo {b : MethodBody} {refs later : ReferenceTable}
    {returnType : TypeSig} (h : b.IsVerified refs returnType) (hgrows : refs.GrowsTo later) :
    b.IsVerified later returnType :=
  { h with maxStack := computeMaxStack_of_growsTo hgrows h.maxStack }

namespace Draft

variable {σ α : Type} {returnType : TypeSig}

/-- Whatever comes of the edit, references are only added. -/
abbrev OnlyImports (edit : Edit (Draft σ) α) : Prop := Edit.OnlyImports Draft.references edit

/-- Whatever comes of the edit, references are only added, and the body is as it was or
verified. -/
def Safe (returnType : TypeSig) (edit : Edit (Draft σ) α) : Prop :=
  edit.Ensures fun d d' => d.references.GrowsTo d'.references ∧
    (d'.body = d.body ∨ d'.body.IsVerified d'.references returnType)

theorem onlyImports_importMember (member : MemberRef) :
    OnlyImports (importMember member : Edit (Draft σ) Token) :=
  fun d => ReferenceTable.growsTo_intern d.references member

theorem references_onBody (edit : Edit MethodBody α) (d : Draft σ) :
    ((onBody edit).after d).references = d.references := by
  rw [onBody, Edit.after_within]

variable {R : ReferenceTable → ReferenceTable → Prop} (hrefl : ∀ refs, R refs refs)
  (htrans : ∀ {refs later last}, R refs later → R later last → R refs last)

include hrefl in
theorem imports_onBody (edit : Edit MethodBody α) :
    Edit.Imports R Draft.references (onBody edit : Edit (Draft σ) α) := by
  intro d
  rw [references_onBody]
  exact hrefl d.references

include hrefl htrans in
theorem imports_editExpanded {isChange : α → Bool} {edit : Edit (Draft σ) α}
    (h : Edit.Imports R Draft.references edit) :
    Edit.Imports R Draft.references (editExpanded returnType isChange edit) := by
  intro d
  unfold Edit.after editExpanded
  cases hexpand : onBody MethodBody.expand d with
  | error e d₁ => exact (imports_onBody hrefl _).of_error hexpand
  | ok u d₁ =>
    have h₁ := (imports_onBody hrefl _).of_ok hexpand
    simp only
    cases hedit : edit d₁ with
    | error e d₂ => exact htrans h₁ (h.of_error hedit)
    | ok a d₂ =>
      have h₂ := htrans h₁ (h.of_ok hedit)
      by_cases ha : isChange a = true
      · simp only [if_pos ha]
        cases hcompact : onBody (MethodBody.compact d₂.references returnType) d₂ with
        | error e d₃ => exact htrans h₂ ((imports_onBody hrefl _).of_error hcompact)
        | ok u d₃ => exact htrans h₂ ((imports_onBody hrefl _).of_ok hcompact)
      · simp only [if_neg ha]
        exact h₂

include hrefl htrans in
theorem imports_transact {isChange : α → Bool} {edit : Edit (Draft σ) α}
    (h : Edit.Imports R Draft.references edit) :
    Edit.Imports R Draft.references (transact returnType isChange edit) := by
  intro d
  have hexpanded : Edit.Imports R Draft.references (editExpanded returnType isChange edit) :=
    imports_editExpanded hrefl htrans h
  unfold Edit.after transact
  cases hedit : editExpanded returnType isChange edit d with
  | error e d' =>
    have hd : R d.references d'.references := hexpanded.of_error hedit
    exact hd
  | ok a d' =>
    have hd : R d.references d'.references := hexpanded.of_ok hedit
    by_cases ha : isChange a = true
    · simp only [if_pos ha]
      exact hd
    · simp only [if_neg ha]
      exact hd

theorem onlyImports_onBody (edit : Edit MethodBody α) :
    OnlyImports (onBody edit : Edit (Draft σ) α) := imports_onBody .refl edit

theorem onlyImports_editExpanded {isChange : α → Bool} {edit : Edit (Draft σ) α}
    (h : OnlyImports edit) : OnlyImports (editExpanded returnType isChange edit) :=
  imports_editExpanded .refl .trans h

theorem importMember_eq_ok {member : MemberRef} {d d' : Draft σ} {t : Token}
    (h : importMember member d = .ok t d') :
    d'.body = d.body ∧ d.references.GrowsTo d'.references ∧
      (d'.references.FitsTokens → d'.references.get t = .ok member) := by
  cases h
  exact ⟨rfl, ReferenceTable.growsTo_intern d.references member, ReferenceTable.get_intern⟩

/-- A transaction edits the expanded body, which is compacted if it was changed and else given
back. -/
theorem transact_eq_ok {isChange : α → Bool} {edit : Edit (Draft σ) α} {d d' : Draft σ} {a : α}
    (h : transact returnType isChange edit d = .ok a d') :
    ∃ expanded d₁, MethodBody.expand d.body = .ok () expanded ∧
      edit { d with body := expanded } = .ok a d₁ ∧
      (isChange a = true → ∃ body,
        MethodBody.compact d₁.references returnType d₁.body = .ok () body ∧
          d' = { d₁ with body }) ∧
      (isChange a = false → d' = { d₁ with body := d.body }) := by
  unfold transact at h
  split at h
  · cases h
  · rename_i after hedit
    cases h
    unfold editExpanded at hedit
    split at hedit
    · cases hedit
    · rename_i hexpand
      obtain ⟨expanded, hexpanded, rfl⟩ := onBody_eq_ok hexpand
      split at hedit
      · cases hedit
      · rename_i a' d₁ hd₁
        split at hedit
        · rename_i hchange
          split at hedit
          · cases hedit
          · rename_i hcompact
            cases hedit
            obtain ⟨body, hbody, rfl⟩ := onBody_eq_ok hcompact
            refine ⟨expanded, d₁, hexpanded, hd₁, fun _ => ⟨body, hbody, ?_⟩, fun hkept => ?_⟩
            · rw [if_pos hchange]
            · rw [hkept] at hchange
              cases hchange
        · rename_i hkept
          cases hedit
          refine ⟨expanded, after, hexpanded, hd₁, fun hchange => absurd hchange hkept, fun _ => ?_⟩
          rw [if_neg hkept]

theorem exists_change {isChange : α → Bool} {edit : Edit (Draft σ) α} {d d' : Draft σ} {a : α}
    (h : transact returnType isChange edit d = .ok a d') (ha : isChange a = true) :
    ∃ expanded d₁, MethodBody.expand d.body = .ok () expanded ∧ expanded.Rephrases d.body ∧
      edit { d with body := expanded } = .ok a d₁ ∧ d'.body.Rephrases d₁.body ∧
      d'.references = d₁.references := by
  obtain ⟨expanded, d₁, hexpand, hedit, hkept, -⟩ := transact_eq_ok h
  obtain ⟨body, hcompact, rfl⟩ := hkept ha
  obtain ⟨hmap, -, -⟩ := MethodBody.expand_eq_ok hexpand
  exact ⟨expanded, d₁, hexpand, hmap.rephrases fun _ i => i.saysSame_expanded, hedit,
    (MethodBody.compact_eq_ok hcompact).2, rfl⟩

theorem isVerified_editExpanded {isChange : α → Bool} {edit : Edit (Draft σ) α} {d d' : Draft σ}
    {a : α} (h : editExpanded returnType isChange edit d = .ok a d') (ha : isChange a = true) :
    d'.body.IsVerified d'.references returnType := by
  unfold editExpanded at h
  split at h
  · cases h
  · split at h
    · cases h
    · rename_i a' d₂ _
      split at h
      · rename_i hchange
        split at h
        · cases h
        · rename_i d₃ hcompact
          cases h
          obtain ⟨body, hbody, rfl⟩ := onBody_eq_ok hcompact
          exact (MethodBody.compact_eq_ok hbody).1
      · rename_i hchange
        cases h
        exact absurd ha hchange

theorem body_of_transact_error {isChange : α → Bool} {edit : Edit (Draft σ) α} {d d' : Draft σ}
    {e : Error} (h : transact returnType isChange edit d = .error e d') : d'.body = d.body := by
  unfold transact at h
  split at h
  · cases h
    rfl
  · cases h

theorem body_of_transact_ok {isChange : α → Bool} {edit : Edit (Draft σ) α} {d d' : Draft σ}
    {a : α} (h : transact returnType isChange edit d = .ok a d') (ha : isChange a = false) :
    d'.body = d.body := by
  unfold transact at h
  split at h
  · cases h
  · cases h
    rw [ha]
    rfl

/-- A transaction leaves the body as it was or verified. -/
theorem safe_transact {isChange : α → Bool} {edit : Edit (Draft σ) α} (h : OnlyImports edit) :
    Safe returnType (transact returnType isChange edit) := by
  intro d
  have hgrows : OnlyImports (editExpanded returnType isChange edit) := onlyImports_editExpanded h
  unfold Edit.after transact
  -- A failed edit gives the old body back, and a change was compacted.
  cases hedit : editExpanded returnType isChange edit d with
  | error e d' =>
    have hrefs : d.references.GrowsTo d'.references := hgrows.of_error hedit
    exact ⟨hrefs, .inl rfl⟩
  | ok a d' =>
    have hrefs : d.references.GrowsTo d'.references := hgrows.of_ok hedit
    by_cases ha : isChange a = true
    · simp only [if_pos ha]
      exact ⟨hrefs, .inr (isVerified_editExpanded hedit ha)⟩
    · simp only [if_neg ha]
      exact ⟨hrefs, .inl trivial⟩

end Draft

/-! ## Rules -/

namespace RewriteRule

variable {σ : Type}

/-- Whatever comes of building a replacement, the rule only adds references. -/
def OnlyImports (rule : RewriteRule σ) : Prop :=
  ∀ body site, Edit.OnlyImports Supplies.references (rule.build body site)

/-- Whatever comes of building a replacement, `R` holds between the references before and
after. -/
def Imports (R : ReferenceTable → ReferenceTable → Prop) (rule : RewriteRule σ) : Prop :=
  ∀ body site, Edit.Imports R Supplies.references (rule.build body site)

section

variable {R : ReferenceTable → ReferenceTable → Prop} {rule : RewriteRule σ} (h : rule.Imports R)
  (hrefl : ∀ refs, R refs refs)
  (htrans : ∀ {refs later last}, R refs later → R later last → R refs last)

include h hrefl htrans

theorem Imports.offer (site : InstrId) (scratch : ScratchLocals) :
    Edit.Imports R Draft.references (rule.offer site scratch) := by
  intro d
  unfold Edit.after RewriteRule.offer
  cases hbuild : rule.build d.body site ⟨d.body.locals, scratch, d.references, d.memory⟩ with
  | error e s => exact (h d.body site).of_error hbuild
  | ok replacement? s =>
    have hs := (h d.body site).of_ok hbuild
    simp only
    cases replacement? with
    | none => exact hs
    | some replacement =>
      simp only
      split <;> rename_i heq <;> split at heq <;> cases heq <;> rename_i hreplace
      · exact htrans hs ((Draft.imports_onBody hrefl _).of_ok hreplace)
      · exact htrans hs ((Draft.imports_onBody hrefl _).of_error hreplace)

theorem Imports.offerEach : ∀ (sites : List InstrId) (scratch : ScratchLocals)
    (done : List Offer), Edit.Imports R Draft.references (rule.offerEach sites scratch done)
  | [], _, _, d => hrefl d.references
  | site :: rest, scratch, done, d => by
    unfold Edit.after RewriteRule.offerEach
    cases happlies : rule.appliesAt d site with
    | false => exact Imports.offerEach rest scratch done d
    | true =>
      simp only [if_true]
      cases hoffer : rule.offer site scratch d with
      | error e d' => exact (h.offer hrefl htrans site scratch).of_error hoffer
      | ok o d' =>
        exact htrans ((h.offer hrefl htrans site scratch).of_ok hoffer)
          (Imports.offerEach rest o.2 (o.1 :: done) d')

/-- What a rule imports, a rewrite of a body imports, whatever comes of it. -/
theorem Imports.rewrite (returnType : TypeSig) :
    Edit.Imports R Draft.references (rule.rewrite returnType) :=
  Draft.imports_transact hrefl htrans fun d =>
    h.offerEach hrefl htrans d.body.code.ids.reverse .empty [] d

end

theorem OnlyImports.offerEach {rule : RewriteRule σ} (h : rule.OnlyImports) (sites : List InstrId)
    (scratch : ScratchLocals) (done : List Offer) :
    Draft.OnlyImports (rule.offerEach sites scratch done) :=
  Imports.offerEach h .refl .trans sites scratch done

theorem OnlyImports.safe_rewrite {rule : RewriteRule σ} (h : rule.OnlyImports)
    (returnType : TypeSig) : Draft.Safe returnType (rule.rewrite returnType) :=
  Draft.safe_transact fun d => h.offerEach d.body.code.ids.reverse .empty [] d

end RewriteRule

end CilWeave
