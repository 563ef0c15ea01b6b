import CilWeave.Proofs.Encoding.Layout
import CilWeave.Proofs.Rewrite.Insertion
import CilWeave.Rewrite.Editing

/-
Running a rule over a body, as a fold over a sequence.

A `Stitch` is one instruction of the code and what became of it, and `weave` adds the
stitches of a body from the right to the left. The engine works on a body that changes
under it; `Visits` is what it does there, one visit for each instruction. The two agree
(`sweep_eq_ok`): what is in front of a visited instruction is as it was, and what is
behind it is woven.
-/

namespace CilWeave

open InstructionList (numbered)
open MethodBody (behindFirst)

/-! ## Weaving -/

/-- What comes of the visit of an instruction. -/
inductive Outcome where
  /-- It is no candidate. -/
  | passed
  /-- The rule declined. -/
  | declined
  /-- The rule replaced it. -/
  | replaced (replacement : Replacement)
  deriving DecidableEq, Repr, Inhabited

/-- An instruction of the code and what became of it. -/
structure Stitch where
  /-- The handle of the instruction. -/
  site : InstrId
  /-- The instruction. -/
  instruction : Instruction
  /-- What became of it. -/
  outcome : Outcome
  deriving DecidableEq, Repr, Inhabited

namespace Stitch

/-- What stands at the site afterwards. -/
def head (s : Stitch) : Instruction :=
  match s.outcome with
  | .replaced ⟨first :: _, _⟩ => s.instruction.recode first.op first.operand
  | _ => s.instruction

/-- What stands directly behind the site. -/
def rest (s : Stitch) : List Instruction :=
  match s.outcome with
  | .replaced ⟨_ :: rest, _⟩ => rest
  | _ => []

/-- What stands behind the instruction that comes next. -/
def trailer (s : Stitch) : List Instruction :=
  match s.outcome with
  | .replaced ⟨_ :: _, trailer⟩ => trailer
  | _ => []

end Stitch

theorem Stitch.of_replaced {s : Stitch} {first : Instruction} {rest trailer : List Instruction}
    (h : s.outcome = .replaced ⟨first :: rest, trailer⟩) :
    s.head = s.instruction.recode first.op first.operand ∧ s.rest = rest ∧
      s.trailer = trailer := by
  simp only [head, Stitch.rest, Stitch.trailer, h, and_self]

/-- The code behind a place, and the slot the next new instruction gets. -/
structure Weave where
  /-- The next slot. -/
  next : Nat
  /-- The code in order. -/
  code : List (InstrId × Instruction)
  deriving DecidableEq, Repr, Inhabited

/-- The code with one more stitch in front. -/
def Weave.add (w : Weave) (s : Stitch) : Weave where
  next := w.next + s.rest.length + s.trailer.length
  code := (s.site, s.head) :: (numbered w.next s.rest ++
    behindFirst (numbered (w.next + s.rest.length) s.trailer) w.code)

/-- The code of some stitches, added from the last to the first. -/
def weave (slots : Nat) (stitches : List Stitch) : Weave :=
  stitches.foldr (fun s w => w.add s) ⟨slots, []⟩

/-- The site was not replaced. -/
def Stitch.IsKept (s : Stitch) : Prop := ∀ r, s.outcome ≠ .replaced r

theorem Stitch.kept_or_replaced (s : Stitch) : s.IsKept ∨ ∃ r, s.outcome = .replaced r := by
  cases ho : s.outcome with
  | passed => exact .inl fun r => by rw [ho]; nofun
  | declined => exact .inl fun r => by rw [ho]; nofun
  | replaced r => exact .inr ⟨r, rfl⟩

theorem Stitch.IsKept.head_eq {s : Stitch} (h : s.IsKept) : s.head = s.instruction := by
  unfold head
  split
  · rename_i heq; exact absurd heq (h _)
  · rfl

theorem Stitch.IsKept.rest_eq {s : Stitch} (h : s.IsKept) : s.rest = [] := by
  unfold rest
  split
  · rename_i heq; exact absurd heq (h _)
  · rfl

theorem Stitch.IsKept.trailer_eq {s : Stitch} (h : s.IsKept) : s.trailer = [] := by
  unfold trailer
  split
  · rename_i heq; exact absurd heq (h _)
  · rfl

theorem behindFirst_nil (code : List (InstrId × Instruction)) : behindFirst [] code = code := by
  cases code <;> rfl

theorem sublist_behindFirst (trailer code : List (InstrId × Instruction)) :
    code.Sublist (behindFirst trailer code) := by
  cases code with
  | nil => exact List.Sublist.refl _
  | cons e rest => exact (List.sublist_append_right trailer rest).cons_cons e

theorem mem_behindFirst {trailer code : List (InstrId × Instruction)}
    {e : InstrId × Instruction} (h : e ∈ behindFirst trailer code) : e ∈ trailer ∨ e ∈ code := by
  cases code with
  | nil => cases h
  | cons x rest =>
    simp only [behindFirst, List.mem_cons, List.mem_append] at h ⊢
    rcases h with h | h | h
    · exact .inr (.inl h)
    · exact .inl h
    · exact .inr (.inr h)

theorem mem_numbered : ∀ {n : Nat} {code : List Instruction} {e : InstrId × Instruction},
    e ∈ numbered n code → ∃ k, n ≤ k ∧ e.1 = InstrId.ofSlot k
  | _, [], _, h => by cases h
  | n, i :: rest, e, h => by
    rcases List.mem_cons.mp h with rfl | h
    · exact ⟨n, Nat.le_refl n, rfl⟩
    · obtain ⟨k, hk, he⟩ := mem_numbered h
      exact ⟨k, by omega, he⟩

theorem Stitch.IsKept.add_eq {s : Stitch} (h : s.IsKept) (w : Weave) :
    w.add s = ⟨w.next, (s.site, s.instruction) :: w.code⟩ := by
  simp only [Weave.add, h.head_eq, h.rest_eq, h.trailer_eq, numbered, behindFirst_nil,
    List.length_nil, List.nil_append, Nat.add_zero]

theorem weave_of_kept {slots : Nat} {stitches : List Stitch} (h : ∀ s ∈ stitches, s.IsKept) :
    weave slots stitches = ⟨slots, stitches.map fun s => (s.site, s.instruction)⟩ := by
  induction stitches with
  | nil => rfl
  | cons s rest ih =>
    have hrest := ih fun x hx => h x (List.mem_cons_of_mem s hx)
    have hadd : weave slots (s :: rest) = (weave slots rest).add s := rfl
    rw [hadd, hrest, (h s (by simp)).add_eq, List.map_cons]

theorem sublist_weave (slots : Nat) (stitches : List Stitch) :
    (stitches.map fun s => (s.site, s.head)).Sublist (weave slots stitches).code := by
  induction stitches with
  | nil => exact List.Sublist.refl _
  | cons s rest ih =>
    rw [List.map_cons]
    refine List.Sublist.cons_cons _ (ih.trans ?_)
    exact (sublist_behindFirst _ _).trans (List.sublist_append_right _ _)

theorem next_weave_le (slots : Nat) (stitches : List Stitch) :
    slots ≤ (weave slots stitches).next := by
  induction stitches with
  | nil => exact Nat.le_refl _
  | cons s rest ih =>
    have hnext : (weave slots (s :: rest)).next =
        (weave slots rest).next + s.rest.length + s.trailer.length := rfl
    omega

theorem mem_weave {slots : Nat} {stitches : List Stitch} {e : InstrId × Instruction}
    (h : e ∈ (weave slots stitches).code) :
    (∃ s ∈ stitches, e = (s.site, s.head)) ∨ ∃ n, slots ≤ n ∧ e.1 = InstrId.ofSlot n := by
  induction stitches with
  | nil => cases h
  | cons s rest ih =>
    have hle := next_weave_le slots rest
    have hcode : (weave slots (s :: rest)).code = (s.site, s.head) ::
        (numbered (weave slots rest).next s.rest ++
          behindFirst (numbered ((weave slots rest).next + s.rest.length) s.trailer)
            (weave slots rest).code) := rfl
    rw [hcode] at h
    rcases List.mem_cons.mp h with rfl | h
    · exact .inl ⟨s, by simp, rfl⟩
    · rcases List.mem_append.mp h with h | h
      · obtain ⟨n, hn, he⟩ := mem_numbered h
        exact .inr ⟨n, by omega, he⟩
      · rcases mem_behindFirst h with h | h
        · obtain ⟨n, hn, he⟩ := mem_numbered h
          exact .inr ⟨n, by omega, he⟩
        · rcases ih h with ⟨t, ht, he⟩ | h
          · exact .inl ⟨t, List.mem_cons_of_mem s ht, he⟩
          · exact .inr h

/-! ## Visits -/

/-- The visit of an instruction of a draft. -/
structure Visit (σ : Type) extends Stitch where
  /-- The draft, as it was then. -/
  draft : Draft σ
  /-- The scratch locals there were then. -/
  scratch : ScratchLocals

namespace Visit

variable {σ : Type}

def entry (v : Visit σ) : InstrId × Instruction := (v.site, v.instruction)

def offer? (v : Visit σ) : Option Offer :=
  match v.outcome with
  | .passed => none
  | .declined => some ⟨v.site, false⟩
  | .replaced _ => some ⟨v.site, true⟩

/-- What the rule may add to at the visit. -/
def supplies (v : Visit σ) : Supplies σ :=
  ⟨v.draft.body.locals, v.scratch, v.draft.references, v.draft.memory⟩

/-- The draft with what the rule added at the visit. -/
def supplied (v : Visit σ) (s : Supplies σ) : Draft σ :=
  ⟨{ v.draft.body with locals := s.locals }, s.references, s.memory⟩

/-- What the visit leaves, as the rule would have it. -/
inductive Leaves (rule : RewriteRule σ) (v : Visit σ) : Draft σ → ScratchLocals → Prop where
  | passed : v.outcome = .passed → rule.appliesAt v.draft v.site = false →
      Leaves rule v v.draft v.scratch
  | declined {s : Supplies σ} : v.outcome = .declined → rule.appliesAt v.draft v.site = true →
      rule.build v.draft.body v.site v.supplies = .ok none s →
      Leaves rule v (v.supplied s) s.scratch
  | replaced {r : Replacement} {s : Supplies σ} {body : MethodBody} :
      v.outcome = .replaced r → rule.appliesAt v.draft v.site = true →
      rule.build v.draft.body v.site v.supplies = .ok (some r) s →
      MethodBody.replace v.site r (v.supplied s).body = .ok () body →
      Leaves rule v { v.supplied s with body } s.scratch

end Visit

/-- The visits of a rule one after the other, from one draft to another. -/
inductive Visits {σ : Type} (rule : RewriteRule σ) :
    Draft σ → ScratchLocals → List (Visit σ) → Draft σ → ScratchLocals → Prop where
  | nil (d : Draft σ) (scratch : ScratchLocals) : Visits rule d scratch [] d scratch
  | cons {v : Visit σ} {rest : List (Visit σ)} {d d' : Draft σ} {scratch scratch' : ScratchLocals} :
      v.Leaves rule d scratch → Visits rule d scratch rest d' scratch' →
      Visits rule v.draft v.scratch (v :: rest) d' scratch'

namespace Visit

variable {σ : Type} {rule : RewriteRule σ}

/-- One visit is one stitch: in front of it nothing changes. -/
theorem Leaves.entries {v : Visit σ} {d : Draft σ} {scratch : ScratchLocals}
    (h : v.Leaves rule d scratch) {front : List (InstrId × Instruction)} {w : Weave}
    (hentries : v.draft.body.code.entries = front ++ v.entry :: w.code)
    (hslots : v.draft.body.code.slots.size = w.next) :
    d.body.code.entries = front ++ (w.add v.toStitch).code ∧
      d.body.code.slots.size = (w.add v.toStitch).next ∧
      d.body.handlers = v.draft.body.handlers := by
  cases h with
  | passed ho =>
    have hkept : v.toStitch.IsKept := fun r => by rw [ho]; nofun
    rw [hkept.add_eq]
    exact ⟨hentries, hslots, rfl⟩
  | declined ho =>
    have hkept : v.toStitch.IsKept := fun r => by rw [ho]; nofun
    rw [hkept.add_eq]
    exact ⟨hentries, hslots, rfl⟩
  | @replaced r s body ho _ _ hreplace =>
    obtain ⟨sequence, trailer⟩ := r
    cases sequence with
    | nil => exact absurd rfl (MethodBody.sequence_ne_nil_of_replace hreplace)
    | cons first rest =>
      have hentries' :
          (v.supplied s).body.code.entries = front ++ (v.site, v.instruction) :: w.code :=
        hentries
      obtain ⟨hsize, hcode⟩ := MethodBody.replace_eq_ok hreplace hentries'
      have hslots' : (v.supplied s).body.code.slots.size = w.next := hslots
      rw [hslots'] at hsize hcode
      have hadd : w.add v.toStitch = ⟨w.next + rest.length + trailer.length,
          (v.site, v.instruction.recode first.op first.operand) :: (numbered w.next rest ++
            behindFirst (numbered (w.next + rest.length) trailer) w.code)⟩ := by
        simp only [Weave.add, Stitch.head, Stitch.rest, Stitch.trailer, ho]
      rw [hadd]
      exact ⟨hcode, hsize, (MethodBody.sameApart_replace hreplace).handlers⟩

theorem Leaves.offer?_isSome {v : Visit σ} {d : Draft σ} {scratch : ScratchLocals}
    (h : v.Leaves rule d scratch) : v.offer?.isSome = rule.appliesAt v.draft v.site := by
  cases h with
  | passed ho happlies => simp only [offer?, ho, happlies]; rfl
  | declined ho happlies => simp only [offer?, ho, happlies]; rfl
  | replaced ho happlies => simp only [offer?, ho, happlies]; rfl

end Visit

namespace RewriteRule

variable {σ : Type} {rule : RewriteRule σ}

theorem offer_eq_ok {site : InstrId} {i : Instruction} {scratch scratch' : ScratchLocals}
    {d d' : Draft σ} {o : Offer} (happlies : rule.appliesAt d site = true)
    (h : rule.offer site scratch d = .ok (o, scratch') d') :
    ∃ outcome, Visit.Leaves rule ⟨⟨site, i, outcome⟩, d, scratch⟩ d' scratch' ∧
      Visit.offer? ⟨⟨site, i, outcome⟩, d, scratch⟩ = some o := by
  unfold offer at h
  cases hbuild : rule.build d.body site ⟨d.body.locals, scratch, d.references, d.memory⟩ with
  | error e s => rw [hbuild] at h; cases h
  | ok replacement? s =>
    rw [hbuild] at h
    cases replacement? with
    | none =>
      cases h
      exact ⟨.declined, .declined rfl happlies hbuild, rfl⟩
    | some r =>
      simp only at h
      split at h
      · cases h
      · rename_i u d₁ hreplace
        obtain ⟨body, hbody, rfl⟩ := Draft.onBody_eq_ok hreplace
        cases h
        exact ⟨.replaced r, .replaced rfl happlies hbuild hbody, rfl⟩

/-- The engine makes one visit to each instruction in front of the woven code. -/
theorem offerEach_eq_ok : ∀ {todo : List (InstrId × Instruction)} {scratch : ScratchLocals}
    {done offers : List Offer} {d d' : Draft σ} {w : Weave},
    rule.offerEach (todo.map Prod.fst) scratch done d = .ok offers d' →
    d.body.code.entries = todo.reverse ++ w.code → d.body.code.slots.size = w.next →
    ∃ visits scratch', Visits rule d scratch visits d' scratch' ∧ visits.map Visit.entry = todo ∧
      offers = done.reverse ++ visits.filterMap Visit.offer? ∧
      (∀ v ∈ visits, v.draft.body.code.get? v.site = some v.instruction) ∧
      d'.body.code.entries = (visits.foldl (fun w v => w.add v.toStitch) w).code ∧
      d'.body.handlers = d.body.handlers
  | [], scratch, done, offers, d, d', w, h, hentries, _ => by
    cases h
    exact ⟨[], scratch, .nil d scratch, rfl, by simp, by simp, hentries, rfl⟩
  | (site, i) :: todo, scratch, done, offers, d, d', w, h, hentries, hslots => by
    have hsplit : d.body.code.entries = todo.reverse ++ (site, i) :: w.code := by
      rw [hentries, List.reverse_cons]; simp
    have hget : d.body.code.get? site = some i :=
      InstructionList.get?_of_entries hsplit (by simp : (site, i) ∈ _)
    -- The visit of this site, and the visits of the others after it.
    have visit : ∀ {outcome : Outcome} {done' : List Offer} {d₁ : Draft σ} {s₁ : ScratchLocals},
        Visit.Leaves rule ⟨⟨site, i, outcome⟩, d, scratch⟩ d₁ s₁ →
        done'.reverse =
          done.reverse ++ (Visit.offer? ⟨⟨site, i, outcome⟩, d, scratch⟩).toList →
        rule.offerEach (todo.map Prod.fst) s₁ done' d₁ = .ok offers d' →
        ∃ visits scratch', Visits rule d scratch visits d' scratch' ∧
          visits.map Visit.entry = (site, i) :: todo ∧
          offers = done.reverse ++ visits.filterMap Visit.offer? ∧
          (∀ v ∈ visits, v.draft.body.code.get? v.site = some v.instruction) ∧
          d'.body.code.entries = (visits.foldl (fun w v => w.add v.toStitch) w).code ∧
          d'.body.handlers = d.body.handlers := by
      intro outcome done' d₁ s₁ hleaves hdone hrest
      obtain ⟨hentries₁, hslots₁, hhandlers₁⟩ := hleaves.entries hsplit hslots
      obtain ⟨visits, scratch', hvisits, hsites, hoffers, hgets, hcode, hhandlers⟩ :=
        offerEach_eq_ok hrest hentries₁ hslots₁
      refine ⟨⟨⟨site, i, outcome⟩, d, scratch⟩ :: visits, scratch', .cons hleaves hvisits, ?_, ?_,
        ?_, hcode, hhandlers.trans hhandlers₁⟩
      · rw [List.map_cons, hsites]; rfl
      · rw [hoffers, hdone, List.filterMap_cons]
        cases Visit.offer? ⟨⟨site, i, outcome⟩, d, scratch⟩ <;> simp
      · intro v hv
        rcases List.mem_cons.mp hv with rfl | hv
        · exact hget
        · exact hgets v hv
    rw [List.map_cons] at h
    unfold offerEach at h
    cases happlies : rule.appliesAt d site with
    | false =>
      simp only [happlies, Bool.false_eq_true, if_false] at h
      have hleaves : Visit.Leaves rule ⟨⟨site, i, .passed⟩, d, scratch⟩ d scratch :=
        .passed rfl happlies
      exact visit hleaves (by simp [Visit.offer?]) h
    | true =>
      simp only [happlies, if_true] at h
      cases hoffer : rule.offer site scratch d with
      | error e d₁ => rw [hoffer] at h; cases h
      | ok result d₁ =>
        obtain ⟨o, s₁⟩ := result
        rw [hoffer] at h
        obtain ⟨outcome, hleaves, ho⟩ := offer_eq_ok (i := i) happlies hoffer
        exact visit hleaves (by rw [ho]; simp) h

/-- A sweep over a body visits every instruction once, from the last to the first, and
leaves what is woven of the visits. -/
theorem sweep_eq_ok {d d' : Draft σ} {offers : List Offer} (h : rule.sweep d = .ok offers d') :
    ∃ visits scratch, Visits rule d .empty visits d' scratch ∧
      visits.map Visit.entry = d.body.code.entries.reverse ∧
      offers = visits.filterMap Visit.offer? ∧
      (∀ v ∈ visits, v.draft.body.code.get? v.site = some v.instruction) ∧
      d'.body.code.entries =
        (weave d.body.code.slots.size (visits.reverse.map Visit.toStitch)).code ∧
      d'.body.handlers = d.body.handlers := by
  unfold sweep at h
  have hsites : d.body.code.ids.reverse = d.body.code.entries.reverse.map Prod.fst := by
    rw [List.map_reverse, InstructionList.map_fst_entries]
  rw [hsites] at h
  obtain ⟨visits, scratch, hvisits, hentries, hoffers, hgets, hcode, hhandlers⟩ :=
    offerEach_eq_ok (w := ⟨d.body.code.slots.size, []⟩) h (by simp) rfl
  refine ⟨visits, scratch, hvisits, hentries, hoffers, hgets, ?_, hhandlers⟩
  rw [hcode, weave, List.foldr_map, List.foldr_reverse]

end RewriteRule

end CilWeave
