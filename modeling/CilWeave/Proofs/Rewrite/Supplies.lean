import CilWeave.Proofs.Execution.Straight
import CilWeave.Proofs.Rewrite.Refinement
import CilWeave.Proofs.Rewrite.Safety

/-
What a rule can make of its supplies.

While a rule builds a replacement, references are added, locals are declared behind the
others, and scratch locals are among those that were declared since (`Supplies.Extends`).
For such a rule the same holds between any two points of a run over a body
(`Visits.extends`).
-/

namespace CilWeave

open Execution (IsScratch)

variable {σ : Type}

theorem Execution.IsScratch.mono {index : UInt16} {first last last' : Nat}
    (h : IsScratch index first last) (hle : last ≤ last') : IsScratch index first last' :=
  ⟨h.le, Nat.lt_of_lt_of_le h.lt hle⟩

namespace Supplies

/-- The scratch locals are none of the locals before `first`. -/
structure Reserved (first : Nat) (s : Supplies σ) : Prop where
  locals : first ≤ s.locals.size
  scratch : ∀ e ∈ s.scratch.entries, IsScratch e.2 first s.locals.size

/-- Nothing is taken away from the supplies, and scratch locals are new ones. -/
structure Extends (s s' : Supplies σ) : Prop where
  references : s.references.GrowsTo s'.references
  locals : s.locals.toList <+: s'.locals.toList
  reserved : ∀ first, s.Reserved first → s'.Reserved first

theorem Extends.refl (s : Supplies σ) : s.Extends s :=
  ⟨.refl s.references, List.prefix_refl _, fun _ h => h⟩

theorem Extends.trans {s s' s'' : Supplies σ} (h : s.Extends s') (h' : s'.Extends s'') :
    s.Extends s'' :=
  ⟨h.references.trans h'.references, h.locals.trans h'.locals,
    fun first hs => h'.reserved first (h.reserved first hs)⟩

theorem Extends.size_le {s s' : Supplies σ} (h : s.Extends s') :
    s.locals.size ≤ s'.locals.size := by
  have hle := h.locals.length_le
  rwa [Array.length_toList, Array.length_toList] at hle

theorem scratchLocal_eq_ok {type : TypeSig} {s s' : Supplies σ} {index : UInt16}
    (h : scratchLocal type s = .ok index s') :
    s' = s ∧ (∃ e ∈ s.scratch.entries, e.2 = index) ∨
      s' = { s with
        scratch := ⟨(type, index) :: s.scratch.entries⟩
        locals := s.locals.push type } ∧ index.toNat = s.locals.size := by
  obtain ⟨⟨scratch, locals⟩, hrequest, rfl⟩ := Edit.within_eq_ok.mp h
  obtain ⟨hfind, rfl, rfl⟩ | ⟨-, hindex, rfl, rfl⟩ := ScratchLocals.request_eq_ok hrequest
  · obtain ⟨e, he, heq⟩ := Option.map_eq_some_iff.mp hfind
    exact .inl ⟨rfl, e, List.mem_of_find?_eq_some he, heq⟩
  · exact .inr ⟨rfl, hindex⟩

theorem scratchLocal_eq_error {type : TypeSig} {s s' : Supplies σ} {e : Error}
    (h : scratchLocal type s = .error e s') : e = .malformed .tooManyLocals ∧ s' = s := by
  obtain ⟨⟨scratch, locals⟩, hrequest, rfl⟩ := Edit.within_eq_error.mp h
  obtain ⟨-, -, rfl, rfl, rfl⟩ := ScratchLocals.request_eq_error_iff.mp hrequest
  exact ⟨rfl, rfl⟩

theorem extends_scratchLocal (type : TypeSig) :
    Edit.Ensures (scratchLocal type : Edit (Supplies σ) UInt16) Extends := by
  intro s
  cases h : scratchLocal type s with
  | error e s' =>
    obtain ⟨-, rfl⟩ := scratchLocal_eq_error h
    rw [Edit.after_error h]
    exact .refl s'
  | ok index s' =>
    rw [Edit.after_ok h]
    rcases scratchLocal_eq_ok h with ⟨rfl, -⟩ | ⟨rfl, hindex⟩
    · exact .refl s'
    -- The new local is behind all others, those before `first` included.
    · refine ⟨.refl s.references, ?_, fun first hs => ?_⟩
      · rw [Array.toList_push]
        exact List.prefix_append _ _
      · have hle : s.locals.size ≤ (s.locals.push type).size := by
          rw [Array.size_push]
          exact Nat.le_succ _
        refine ⟨Nat.le_trans hs.locals hle, fun e he => ?_⟩
        rcases List.mem_cons.mp he with rfl | he
        · exact ⟨hindex ▸ hs.locals, by rw [hindex, Array.size_push]; exact Nat.lt_succ_self _⟩
        · exact (hs.scratch e he).mono hle

theorem isScratch_scratchLocal {type : TypeSig} {s s' : Supplies σ} {index : UInt16}
    (h : scratchLocal type s = .ok index s') {first : Nat} (hs : s.Reserved first) :
    IsScratch index first s'.locals.size := by
  rcases scratchLocal_eq_ok h with ⟨rfl, e, he, rfl⟩ | ⟨rfl, hindex⟩
  · exact hs.scratch e he
  · exact ⟨hindex ▸ hs.locals, by rw [hindex, Array.size_push]; exact Nat.lt_succ_self _⟩

theorem extends_importMember (member : MemberRef) :
    Edit.Ensures (importMember member : Edit (Supplies σ) Token) Extends := fun s =>
  ⟨ReferenceTable.growsTo_intern s.references member, List.prefix_refl _, fun _ h => ⟨h.1, h.2⟩⟩

theorem get_importMember {member : MemberRef} {s s' : Supplies σ} {t : Token}
    (h : importMember member s = .ok t s') {later : ReferenceTable}
    (hgrows : s'.references.GrowsTo later) (hfits : later.FitsTokens) :
    later.get t = .ok member := by
  have htoken : (s.references.intern member).1 = t := (EStateM.Result.ok.inj h).1
  have htable : (s.references.intern member).2 = s'.references :=
    congrArg Supplies.references (EStateM.Result.ok.inj h).2
  have hget := @ReferenceTable.get_intern s.references member
  rw [htoken, htable] at hget
  exact hgrows.get_eq_ok (hget (hgrows.fitsTokens hfits))

end Supplies

/-! ## Rules -/

open Supplies (Extends)

def Draft.supplies (d : Draft σ) (scratch : ScratchLocals) : Supplies σ :=
  ⟨d.body.locals, scratch, d.references, d.memory⟩

/-- Whatever comes of building a replacement, the rule only extends its supplies. -/
def RewriteRule.OnlyExtends (rule : RewriteRule σ) : Prop :=
  ∀ body site, Edit.Ensures (rule.build body site) Extends

variable {rule : RewriteRule σ}

theorem RewriteRule.OnlyExtends.onlyImports (h : rule.OnlyExtends) : rule.OnlyImports :=
  fun body site s => (h body site s).references

theorem Visit.Leaves.supplies {R : Supplies σ → Supplies σ → Prop} (hrefl : ∀ s, R s s)
    (hrule : ∀ body site, Edit.Ensures (rule.build body site) R) {v : Visit σ} {d : Draft σ}
    {scratch : ScratchLocals} (h : v.Leaves rule d scratch) :
    R (v.draft.supplies v.scratch) (d.supplies scratch) := by
  cases h with
  | passed => exact hrefl _
  | declined _ _ hbuild => exact (hrule v.draft.body v.site).of_ok hbuild
  | replaced _ _ hbuild hreplace =>
    have hbuilt := (hrule v.draft.body v.site).of_ok hbuild
    have hlocals := (MethodBody.sameApart_replace hreplace).locals
    unfold Draft.supplies
    rw [hlocals]
    exact hbuilt

/-- What a rule makes of its supplies from one visit to the next adds up. -/
theorem Visits.supplies {R : Supplies σ → Supplies σ → Prop} (hrefl : ∀ s, R s s)
    (htrans : ∀ {s s' s''}, R s s' → R s' s'' → R s s'')
    (hrule : ∀ body site, Edit.Ensures (rule.build body site) R) {d d' : Draft σ}
    {scratch scratch' : ScratchLocals} {visits : List (Visit σ)}
    (h : Visits rule d scratch visits d' scratch') :
    R (d.supplies scratch) (d'.supplies scratch') ∧ ∀ v ∈ visits,
      R (d.supplies scratch) (v.draft.supplies v.scratch) ∧
        ∃ left rest, v.Leaves rule left rest ∧
          R (left.supplies rest) (d'.supplies scratch') := by
  induction h with
  | nil => exact ⟨hrefl _, fun v hv => absurd hv List.not_mem_nil⟩
  | @cons u visits d₁ d₂ s₁ s₂ hleaves _ ih =>
    obtain ⟨hrest, hvisits⟩ := ih
    have hfirst := hleaves.supplies hrefl hrule
    refine ⟨htrans hfirst hrest, fun v hv => ?_⟩
    rcases List.mem_cons.mp hv with rfl | hv
    · exact ⟨hrefl _, d₁, s₁, hleaves, hrest⟩
    · obtain ⟨hbefore, left, rest, hleft, hafter⟩ := hvisits v hv
      exact ⟨htrans hfirst hbefore, left, rest, hleft, hafter⟩

theorem Visit.Leaves.extends (hrule : rule.OnlyExtends) {v : Visit σ} {d : Draft σ}
    {scratch : ScratchLocals} (h : v.Leaves rule d scratch) :
    (v.draft.supplies v.scratch).Extends (d.supplies scratch) := h.supplies .refl hrule

/-- What a rule adds from one visit to the next adds up. -/
theorem Visits.extends (hrule : rule.OnlyExtends) {d d' : Draft σ}
    {scratch scratch' : ScratchLocals} {visits : List (Visit σ)}
    (h : Visits rule d scratch visits d' scratch') :
    (d.supplies scratch).Extends (d'.supplies scratch') ∧ ∀ v ∈ visits,
      (d.supplies scratch).Extends (v.draft.supplies v.scratch) ∧
        ∃ left rest, v.Leaves rule left rest ∧
          (left.supplies rest).Extends (d'.supplies scratch') :=
  h.supplies .refl .trans hrule

end CilWeave
