import Mathlib.Data.List.Perm.Subperm
import CilWeave.Proofs.Renumbering.Encoding
import CilWeave.Proofs.Rewrite.Safety

/-
One rewrite of a body, done twice with other tables of references.

The second time the table holds other rows, so an imported member gets another token. As
long as every member that is imported the first time has room in the tables of both, the
second rewrite succeeds where the first one did, is offered the same instructions, and
leaves a body that is alike (`RewriteRule.Portable.rewrite`). That there is room is known
of the last table of the first time, `limit`: the second table never holds a member twice,
nor one that `limit` does not hold.
-/

namespace CilWeave

open ReferenceTable (SameMember)

variable {limit refs refs' : ReferenceTable}

/-! ## Tables -/

namespace ReferenceTable

/-- The table holds no member twice, and none that `limit` does not hold. -/
structure Within (limit refs : ReferenceTable) : Prop where
  nodup : refs.toList.Nodup
  subset : refs.toList ⊆ limit.toList

theorem Within.fitsTokens (h : Within limit refs) (hfits : limit.FitsTokens) :
    refs.FitsTokens := by
  have hle := (List.subperm_of_subset h.nodup h.subset).length_le
  unfold toList at hle
  rw [Array.length_toList, Array.length_toList] at hle
  exact Nat.lt_of_le_of_lt hle hfits

theorem Within.intern (h : Within limit refs) {member : MemberRef}
    (hmember : member ∈ limit.toList) : Within limit (refs.intern member).2 := by
  refine ⟨nodup_intern h.nodup member, ?_⟩
  rcases refs.intern_cases member with ⟨-, heq⟩ | ⟨-, heq⟩
  · rw [heq]
    exact h.subset
  · rw [heq]
    exact List.append_subset.mpr ⟨h.subset, by simpa using hmember⟩

theorem Within.sameMember_intern (h : Within limit refs') {member : MemberRef}
    (hfits : limit.FitsTokens) (hgrows : (refs.intern member).2.GrowsTo limit) :
    SameMember (refs.intern member).2 (refs'.intern member).2 (refs.intern member).1
        (refs'.intern member).1 ∧ Within limit (refs'.intern member).2 := by
  have hget := get_intern (hgrows.fitsTokens hfits)
  have hwithin := h.intern (hgrows.subset (mem_of_get_eq_ok hget))
  exact ⟨.named hget (get_intern (hwithin.fitsTokens hfits)), hwithin⟩

end ReferenceTable

/-! ## Replacements -/

/-- Equal replacements, with tokens compared by the members they name. -/
structure Replacement.Alike (refs refs' : ReferenceTable) (r r' : Replacement) : Prop where
  sequence : List.Forall₂ (Instruction.Alike refs refs') r.sequence r'.sequence
  trailer : List.Forall₂ (Instruction.Alike refs refs') r.trailer r'.trailer

namespace MethodBody.Alike

variable {b b' s : MethodBody}

theorem insertAllAfter {code code' : List Instruction}
    (hcode : List.Forall₂ (Instruction.Alike refs refs') code code') :
    ∀ {anchor last : InstrId} {b b' s : MethodBody}, Alike refs refs' b b' →
      insertAllAfter anchor code b = .ok last s →
      ∃ s', MethodBody.insertAllAfter anchor code' b' = .ok last s' ∧ Alike refs refs' s s' := by
  induction hcode with
  | nil =>
    intro anchor last b b' s h hs
    cases hs
    exact ⟨b', rfl, h⟩
  | cons hi _ ih =>
    intro anchor last b b' s h hs
    obtain ⟨new, code, hinsert, hs⟩ := insertAllAfter_cons_eq_ok hs
    obtain ⟨code', hinsert', hcode⟩ := h.code.insertAfter hi hinsert
    obtain ⟨s', hs', halike⟩ := ih (h.withCode hcode) hs
    refine ⟨s', ?_, halike⟩
    rw [MethodBody.insertAllAfter, MethodBody.onCode, Edit.within_of_ok hinsert']
    exact hs'

theorem insertTrailer {last : InstrId} {trailer trailer' : List Instruction}
    (h : Alike refs refs' b b')
    (htrailer : List.Forall₂ (Instruction.Alike refs refs') trailer trailer')
    (hs : insertTrailer last trailer b = .ok () s) :
    ∃ s', MethodBody.insertTrailer last trailer' b' = .ok () s' ∧ Alike refs refs' s s' := by
  cases htrailer with
  | nil =>
    cases hs
    exact ⟨b', rfl, h⟩
  | cons hi hrest =>
    unfold MethodBody.insertTrailer at hs ⊢
    simp only at hs ⊢
    rw [h.code.next?_eq]
    split at hs
    · cases hs
    · split at hs
      · cases hs
      · rename_i hinsert
        cases hs
        obtain ⟨s', hinsert', halike⟩ := insertAllAfter (.cons hi hrest) h hinsert
        rw [hinsert']
        exact ⟨s', rfl, halike⟩

theorem replace {site : InstrId} {r r' : Replacement} (h : Alike refs refs' b b')
    (hr : r.Alike refs refs' r') (hs : replace site r b = .ok () s) :
    ∃ s', MethodBody.replace site r' b' = .ok () s' ∧ Alike refs refs' s s' := by
  obtain ⟨sequence, trailer⟩ := r
  obtain ⟨sequence', trailer'⟩ := r'
  obtain ⟨hsequence, htrailer⟩ := hr
  unfold MethodBody.replace at hs ⊢
  cases hsequence with
  | nil => cases hs
  | cons hfirst hrest =>
    simp only at hs ⊢
    rw [h.contains_eq]
    split at hs
    · rename_i hsite
      rw [if_pos hsite]
      split at hs
      · cases hs
      · rename_i hinsert
        obtain ⟨s₁', hinsert', h₁⟩ :=
          insertAllAfter hrest (h.modifyAt site fun _ _ hi => hi.recode hfirst) hinsert
        rw [hinsert']
        exact h₁.insertTrailer htrailer hs
    · cases hs

end MethodBody.Alike

/-! ## Drafts -/

variable {σ α : Type}

/-- Equal supplies, apart from the tables of references. -/
structure Supplies.Alike (limit : ReferenceTable) (s s' : Supplies σ) : Prop where
  locals : s'.locals = s.locals
  scratch : s'.scratch = s.scratch
  memory : s'.memory = s.memory
  within : limit.Within s'.references

/-- Where the edit succeeds on supplies, it succeeds on all that are alike, with an answer that
`R` relates to the other one. -/
def Supplies.Portable (limit : ReferenceTable)
    (R : ReferenceTable → ReferenceTable → α → α → Prop) (edit : Edit (Supplies σ) α) : Prop :=
  ∀ {s s' s₁ : Supplies σ} {a : α}, s.Alike limit s' → edit s = .ok a s₁ →
    s₁.references.GrowsTo limit → ∃ a' s₁', edit s' = .ok a' s₁' ∧ s₁.Alike limit s₁' ∧
      R s₁.references s₁'.references a a'

/-- Drafts whose bodies differ in the numbers of their references alone. -/
structure Draft.Alike (limit : ReferenceTable) (d d' : Draft σ) : Prop where
  body : d.body.Alike d.references d'.references d'.body
  memory : d'.memory = d.memory
  within : limit.Within d'.references

namespace Draft

/-- Where the edit succeeds on a draft, it succeeds with the same answer on every draft that
is alike. -/
def Portable (limit : ReferenceTable) (edit : Edit (Draft σ) α) : Prop :=
  ∀ {d d' d₁ : Draft σ} {a : α}, d.Alike limit d' → edit d = .ok a d₁ →
    d₁.references.GrowsTo limit → ∃ d₁', edit d' = .ok a d₁' ∧ d₁.Alike limit d₁'

theorem portable_editExpanded {returnType : TypeSig} {isChange : α → Bool}
    {edit : Edit (Draft σ) α} (hedit : Portable limit edit) :
    Portable limit (editExpanded returnType isChange edit) := by
  intro d d' d₁ a h hd hgrows
  unfold editExpanded at hd ⊢
  split at hd
  · cases hd
  · rename_i s hexpand
    obtain ⟨body, hbody, rfl⟩ := onBody_eq_ok hexpand
    obtain ⟨body', hbody', halike⟩ := h.body.expand hbody
    rw [onBody_of_ok hbody']
    simp only
    have hexpanded : Alike limit { d with body } { d' with body := body' } :=
      ⟨halike, h.memory, h.within⟩
    split at hd
    · cases hd
    · rename_i a₂ d₂ hd₂
      by_cases hchange : isChange a₂ = true
      · rw [if_pos hchange] at hd
        split at hd
        · cases hd
        · rename_i hcompact
          cases hd
          obtain ⟨compacted, hcompacted, rfl⟩ := onBody_eq_ok hcompact
          obtain ⟨d₂', hd₂', h₂⟩ := hedit hexpanded hd₂ hgrows
          obtain ⟨compacted', hcompacted', halike'⟩ := h₂.body.compact hcompacted
          rw [hd₂']
          simp only
          rw [if_pos hchange, onBody_of_ok hcompacted']
          exact ⟨_, rfl, halike', h₂.memory, h₂.within⟩
      · rw [if_neg hchange] at hd
        cases hd
        obtain ⟨d₂', hd₂', h₂⟩ := hedit hexpanded hd₂ hgrows
        rw [hd₂']
        simp only
        rw [if_neg hchange]
        exact ⟨d₂', rfl, h₂⟩

theorem portable_transact {returnType : TypeSig} {isChange : α → Bool}
    {edit : Edit (Draft σ) α} (himports : OnlyImports edit) (hedit : Portable limit edit) :
    Portable limit (transact returnType isChange edit) := by
  intro d d' d₁ a h hd hgrows
  unfold transact at hd ⊢
  split at hd
  · cases hd
  · rename_i s hexpanded
    cases hd
    have hrefs : s.references.GrowsTo limit := by
      by_cases hchange : isChange a = true
      · rwa [if_pos hchange] at hgrows
      · rwa [if_neg hchange] at hgrows
    obtain ⟨s', hs', halike⟩ := portable_editExpanded hedit h hexpanded hrefs
    rw [hs']
    refine ⟨_, rfl, ?_⟩
    by_cases hchange : isChange a = true
    · rw [if_pos hchange, if_pos hchange]
      exact halike
    -- No change: both bodies are the ones before, and the tables have only grown.
    · rw [if_neg hchange, if_neg hchange]
      have hlater := (onlyImports_editExpanded himports).of_ok hexpanded
      have hlater' := (onlyImports_editExpanded himports).of_ok hs'
      exact ⟨h.body.mono hlater hlater', halike.memory, halike.within⟩

end Draft

/-! ## Rules -/

namespace RewriteRule

/-- The rule picks the same candidates in bodies that are alike, and builds replacements
that are alike. -/
structure Portable (limit : ReferenceTable) (rule : RewriteRule σ) : Prop where
  imports : rule.OnlyImports
  applies : ∀ {memory : σ} {refs refs' : ReferenceTable} {i i' : Instruction},
    i.Alike refs refs' i' → rule.applies memory refs' i' = rule.applies memory refs i
  build : ∀ {body body' : MethodBody} {site : InstrId} {s s' s₁ : Supplies σ}
    {r : Option Replacement}, body.Alike s.references s'.references body' → s.Alike limit s' →
    rule.build body site s = .ok r s₁ → s₁.references.GrowsTo limit →
    ∃ r' s₁', rule.build body' site s' = .ok r' s₁' ∧ s₁.Alike limit s₁' ∧
      Option.Rel (Replacement.Alike s₁.references s₁'.references) r r'

namespace Portable

variable {rule : RewriteRule σ} {d d' : Draft σ}

theorem appliesAt_eq (hrule : rule.Portable limit) (h : d.Alike limit d') (site : InstrId) :
    rule.appliesAt d' site = rule.appliesAt d site := by
  unfold RewriteRule.appliesAt
  rcases h.body.code.get?_cases site with ⟨hi, hi'⟩ | ⟨i, i', hi, hi', halike⟩
  · rw [hi, hi']
  · rw [hi, hi', h.memory]
    exact hrule.applies halike

theorem offer (hrule : rule.Portable limit) (site : InstrId) (scratch : ScratchLocals) :
    Draft.Portable limit (rule.offer site scratch) := by
  intro d d' d₁ o h hd hgrows
  unfold RewriteRule.offer at hd ⊢
  have hsupplies : Supplies.Alike limit ⟨d.body.locals, scratch, d.references, d.memory⟩
      ⟨d'.body.locals, scratch, d'.references, d'.memory⟩ :=
    ⟨h.body.locals, rfl, h.memory, h.within⟩
  split at hd
  · cases hd
  · rename_i r s hbuild
    -- The table is last touched by the rule, so it is within the limit there already.
    have hrefs : s.references.GrowsTo limit := by
      simp only at hd
      split at hd
      · cases hd
        exact hgrows
      · split at hd
        · cases hd
        · rename_i hreplace
          cases hd
          obtain ⟨body, -, rfl⟩ := Draft.onBody_eq_ok hreplace
          exact hgrows
    obtain ⟨r', s', hbuild', halike, hr⟩ := hrule.build h.body hsupplies hbuild hrefs
    have hbody := h.body.mono ((hrule.imports d.body site).of_ok hbuild)
      ((hrule.imports d'.body site).of_ok hbuild')
    rw [hbuild']
    simp only at hd ⊢
    have hsupplied : Draft.Alike limit
        ⟨{ d.body with locals := s.locals }, s.references, s.memory⟩
        ⟨{ d'.body with locals := s'.locals }, s'.references, s'.memory⟩ :=
      ⟨{ hbody with locals := halike.locals }, halike.memory, halike.within⟩
    cases hr with
    | none =>
      cases hd
      exact ⟨_, by rw [halike.scratch], hsupplied⟩
    | some hr =>
      simp only at hd ⊢
      split at hd
      · cases hd
      · rename_i hreplace
        cases hd
        obtain ⟨body, hbody, rfl⟩ := Draft.onBody_eq_ok hreplace
        obtain ⟨body', hbody', hreplaced⟩ := hsupplied.body.replace hr hbody
        rw [Draft.onBody_of_ok hbody', halike.scratch]
        exact ⟨_, rfl, hreplaced, halike.memory, halike.within⟩

theorem offerEach (hrule : rule.Portable limit) :
    ∀ (sites : List InstrId) (scratch : ScratchLocals) (done : List Offer),
      Draft.Portable limit (rule.offerEach sites scratch done)
  | [], _, _, d, d', _, _, h, hd, _ => by
    cases hd
    exact ⟨d', rfl, h⟩
  | site :: rest, scratch, done, d, d', d₁, offers, h, hd, hgrows => by
    unfold RewriteRule.offerEach at hd ⊢
    rw [hrule.appliesAt_eq h]
    split at hd
    · rename_i happlies
      rw [if_pos happlies]
      split at hd
      · cases hd
      · rename_i o scratch₂ d₂ hoffer
        have hrest := (hrule.imports.offerEach rest scratch₂ (o :: done)).of_ok hd
        obtain ⟨d₂', hoffer', h₂⟩ := hrule.offer site scratch h hoffer (hrest.trans hgrows)
        rw [hoffer']
        exact offerEach hrule rest scratch₂ (o :: done) h₂ hd hgrows
    · rename_i happlies
      rw [if_neg happlies]
      exact offerEach hrule rest scratch done h hd hgrows

theorem sweep (hrule : rule.Portable limit) : Draft.Portable limit rule.sweep := by
  intro d d' d₁ offers h hd hgrows
  unfold RewriteRule.sweep at hd ⊢
  rw [h.body.code.ids]
  exact hrule.offerEach _ _ _ h hd hgrows

/-- The rewrite of a body is the same with any table of references that holds the members
the body names. -/
theorem rewrite (hrule : rule.Portable limit) (returnType : TypeSig) :
    Draft.Portable limit (rule.rewrite returnType) :=
  Draft.portable_transact (fun d => hrule.imports.offerEach d.body.code.ids.reverse .empty [] d)
    hrule.sweep

end Portable

end RewriteRule

end CilWeave
