import CilWeave.Proofs.Execution.Straight
import CilWeave.Proofs.Rewrite.Refinement

/-
What stands around an instruction, when it is visited and at the end.

A body is seen through its visits in the order of the code. What is in front of a visited
instruction is as it was, and what is behind it is woven (`Rewriting.entries_at`). At the
end an instruction is followed by the trailer of the one in front of it and by what took
its own place (`Rewriting.stands`).
-/

namespace CilWeave

open Execution (Reads Stands)
open InstructionList (numbered)
open MethodBody (behindFirst)

/-- Where no key occurs twice, a place is known by its key. -/
theorem split_unique {α β : Type} {key : α → β} {x x' : α} {post post' : List α} :
    ∀ {pre pre' : List α}, ((pre ++ x :: post).map key).Nodup →
      pre ++ x :: post = pre' ++ x' :: post' → key x = key x' →
      pre = pre' ∧ x = x' ∧ post = post'
  | [], [], _, heq, _ => by
    cases heq
    exact ⟨rfl, rfl, rfl⟩
  | [], p' :: pre', hnodup, heq, hkey => by
    cases heq
    have hin : key x ∈ (pre' ++ x' :: post').map key := hkey ▸ List.mem_map_of_mem (by simp)
    exact absurd hin (List.nodup_cons.mp hnodup).1
  | p :: pre, [], hnodup, heq, hkey => by
    cases heq
    have hin : key x' ∈ (pre ++ x :: post).map key := hkey ▸ List.mem_map_of_mem (by simp)
    exact absurd hin (List.nodup_cons.mp hnodup).1
  | p :: pre, p' :: pre', hnodup, heq, hkey => by
    obtain ⟨rfl, htail⟩ := List.cons.inj heq
    obtain ⟨rfl, rfl, rfl⟩ := split_unique (List.nodup_cons.mp hnodup).2 htail hkey
    exact ⟨rfl, rfl, rfl⟩

/-! ## Around a stitch -/

theorem map_snd_numbered : ∀ (n : Nat) (code : List Instruction),
    (numbered n code).map Prod.snd = code
  | _, [] => rfl
  | n, i :: rest => by rw [numbered, List.map_cons, map_snd_numbered (n + 1) rest]

/-- What stands behind the site of a stitch, apart from the trailer of the one in front. -/
def Stitch.behind (slots : Nat) (s : Stitch) (post : List Stitch) :
    List (InstrId × Instruction) :=
  numbered (weave slots post).next s.rest ++
    behindFirst (numbered ((weave slots post).next + s.rest.length) s.trailer)
      (weave slots post).code

/-- The trailer that comes behind the first of the stitches behind some others. -/
def lastTrailer (pre : List Stitch) : List Instruction :=
  (pre.getLast?.map Stitch.trailer).getD []

theorem weave_cons (slots : Nat) (s : Stitch) (post : List Stitch) :
    (weave slots (s :: post)).code = (s.site, s.head) :: s.behind slots post := rfl

/-- Where a stitch is in the code: the trailer of the stitch in front is directly behind its
site. -/
theorem weave_split (slots : Nat) (s : Stitch) (post : List Stitch) : ∀ pre : List Stitch,
    ∃ front between, (weave slots (pre ++ s :: post)).code =
        front ++ (s.site, s.head) :: (between ++ s.behind slots post) ∧
      between.map Prod.snd = lastTrailer pre ∧ (pre ≠ [] → front ≠ [])
  | [] => ⟨[], [], rfl, rfl, fun h => absurd rfl h⟩
  | [p] => by
    refine ⟨(p.site, p.head) :: numbered (weave slots (s :: post)).next p.rest,
      numbered ((weave slots (s :: post)).next + p.rest.length) p.trailer, ?_,
      map_snd_numbered _ _, fun _ => by simp⟩
    show (weave slots (p :: s :: post)).code = _
    rw [weave_cons, Stitch.behind, weave_cons, behindFirst]
    rfl
  | p :: q :: pre => by
    obtain ⟨front, between, hcode, hbetween, hfront⟩ := weave_split slots s post (q :: pre)
    -- The trailer of `p` goes behind the first entry of what there is, which is in front of `s`.
    cases front with
    | nil => exact absurd rfl (hfront (by simp))
    | cons f front =>
      refine ⟨(p.site, p.head) :: (numbered (weave slots (q :: pre ++ s :: post)).next p.rest ++
        f :: (numbered ((weave slots (q :: pre ++ s :: post)).next + p.rest.length) p.trailer ++
          front)), between, ?_, ?_, fun _ => by simp⟩
      · show (weave slots (p :: (q :: pre ++ s :: post))).code = _
        rw [weave_cons, Stitch.behind, hcode]
        simp only [List.cons_append, List.append_assoc, behindFirst]
      · rw [hbetween, lastTrailer, lastTrailer, List.getLast?_cons_cons]

/-! ## Around a visit -/

variable {σ : Type} {rule : RewriteRule σ}

/-- The code of the draft at a visit. -/
theorem Visits.entries_at {d d' : Draft σ} {scratch scratch' : ScratchLocals}
    {visits : List (Visit σ)} (h : Visits rule d scratch visits d' scratch') :
    ∀ {w : Weave} {before after : List (Visit σ)} {v : Visit σ}, visits = before ++ v :: after →
      d.body.code.entries = (visits.map Visit.entry).reverse ++ w.code →
      d.body.code.slots.size = w.next →
      v.draft.body.code.entries = (after.map Visit.entry).reverse ++
          v.entry :: (before.foldl (fun w v => w.add v.toStitch) w).code ∧
        v.draft.body.handlers = d.body.handlers := by
  -- By induction on the visits, with what is woven so far as `w`.
  induction h with
  | nil =>
    intro w before after v hsplit
    cases before <;> cases hsplit
  | @cons u rest d₁ d₂ s₁ s₂ hleaves _ ih =>
    intro w before after v hsplit hentries hslots
    have hentries' : u.draft.body.code.entries =
        (rest.map Visit.entry).reverse ++ u.entry :: w.code := by
      rw [hentries, List.map_cons, List.reverse_cons, List.append_assoc]
      rfl
    cases before with
    | nil =>
      cases hsplit
      exact ⟨hentries', rfl⟩
    | cons x before =>
      obtain ⟨rfl, rfl⟩ := List.cons.inj hsplit
      obtain ⟨hcode, hnext, hhandlers⟩ := hleaves.entries hentries' hslots
      obtain ⟨hentries, hhandlers'⟩ := ih rfl hcode hnext
      exact ⟨hentries, hhandlers'.trans hhandlers⟩

namespace RewriteRule.Rewriting

variable {d d' swept : Draft σ} {offers : List Offer} {expanded : MethodBody}
  {visits pre post : List (Visit σ)} {v next : Visit σ}

/-- The code of the draft at a visit: the instructions in front are as they were. -/
theorem entries_at (h : Rewriting rule d d' offers expanded visits swept)
    (hsplit : visits.reverse = pre ++ v :: post) :
    v.draft.body.code.entries = pre.map Visit.entry ++
        v.entry :: (weave d.body.code.slots.size (post.map Visit.toStitch)).code ∧
      v.draft.body.handlers = d.body.handlers := by
  obtain ⟨hmap, -, -⟩ := MethodBody.expand_eq_ok h.expand
  obtain ⟨scratch, hvisits⟩ := h.visited
  have hreverse : visits = post.reverse ++ v :: pre.reverse := by
    rw [← List.reverse_reverse visits, hsplit]
    simp
  have hstart : expanded.code.entries = (visits.map Visit.entry).reverse ++
      (⟨d.body.code.slots.size, []⟩ : Weave).code := by
    rw [h.entries]
    simp
  obtain ⟨hentries, hhandlers⟩ := hvisits.entries_at hreverse hstart hmap.slots
  refine ⟨?_, hhandlers.trans hmap.handlers⟩
  rw [hentries, List.map_reverse, List.reverse_reverse, weave, List.foldr_map,
    List.foldl_reverse]

/-! ## Around an instruction -/

theorem nodup_sites (h : Rewriting rule d d' offers expanded visits swept) :
    (visits.reverse.map fun v => v.site).Nodup := by
  rw [← h.ids_original]
  exact d.body.code.nodup_ids

theorem mem_of_split (hsplit : visits.reverse = pre ++ v :: post) : v ∈ visits := by
  rw [← List.mem_reverse, hsplit]
  simp

theorem exists_split (h : Rewriting rule d d' offers expanded visits swept) {id : InstrId}
    (hid : id ∈ d.body.code.ids) :
    ∃ pre v post, visits.reverse = pre ++ v :: post ∧ v.site = id := by
  rw [h.ids_original] at hid
  obtain ⟨v, hv, rfl⟩ := List.mem_map.mp hid
  obtain ⟨pre, post, hsplit⟩ := List.append_of_mem hv
  exact ⟨pre, v, post, hsplit, rfl⟩

theorem next?_original (h : Rewriting rule d d' offers expanded visits swept)
    (hsplit : visits.reverse = pre ++ v :: post) :
    d.body.code.next? v.site = post.head?.map fun v => v.site := by
  have hids : d.body.code.ids =
      pre.map (fun v => v.site) ++ v.site :: post.map fun v => v.site := by
    rw [h.ids_original, hsplit, List.map_append, List.map_cons]
  rw [InstructionList.next?_of_split hids, List.head?_map]

theorem fetch?_original (h : Rewriting rule d d' offers expanded visits swept)
    (hv : v ∈ visits) : d.body.fetch? v.site = some v.instruction.said := by
  obtain ⟨i, hi, hsame⟩ := h.says_original hv
  unfold MethodBody.fetch?
  rw [hi, Option.map_some, Instruction.saysSame_iff.mp hsame]

theorem fetch?_woven (h : Rewriting rule d d' offers expanded visits swept)
    {e : InstrId × Instruction} (he : e ∈ swept.body.code.entries) :
    d'.body.fetch? e.1 = some e.2.said := by
  obtain ⟨i, hi, hsame⟩ := h.saysSame_woven he
  unfold MethodBody.fetch?
  rw [hi, Option.map_some, Instruction.saysSame_iff.mp hsame]

theorem reads (h : Rewriting rule d d' offers expanded visits swept) :
    Reads d'.body swept.body.code.entries where
  ids := by rw [h.ids_eq, InstructionList.map_fst_entries]
  fetch _ := h.fetch?_woven

/-- From one instruction of the original to the next: what stands at the site, the trailer
of the instruction in front, and the rest of what took its place. -/
theorem stands (h : Rewriting rule d d' offers expanded visits swept)
    (hsplit : visits.reverse = pre ++ v :: next :: post) :
    Stands d'.body v.site
      ((v.head :: (lastTrailer (pre.map Visit.toStitch) ++ v.rest)).map Instruction.said)
      next.site := by
  obtain ⟨front, between, hcode, hbetween, -⟩ := weave_split d.body.code.slots.size v.toStitch
    ((next :: post).map Visit.toStitch) (pre.map Visit.toStitch)
  have hentries := h.woven
  rw [hsplit, List.map_append, List.map_cons, hcode, List.map_cons, Stitch.behind, weave_cons,
    behindFirst, ← List.append_assoc] at hentries
  have hstands := h.reads.stands hentries
  have hmap : ∀ es : List (InstrId × Instruction),
      es.map (fun e => e.2.said) = (es.map Prod.snd).map Instruction.said := by
    intro es
    rw [List.map_map]
    rfl
  rw [hmap, List.map_cons, List.map_append, hbetween, map_snd_numbered] at hstands
  exact hstands

theorem said_targets (h : Rewriting rule d d' offers expanded visits swept) (hv : v ∈ visits) :
    v.instruction.said.targets = v.instruction.targets := by
  obtain ⟨hmap, -, -⟩ := MethodBody.expand_eq_ok h.expand
  obtain ⟨i, -, hi⟩ := hmap.of_get? (h.get?_expanded hv)
  unfold Instruction.said
  rw [hi, i.expanded_expanded]
  rfl

theorem first?_eq (h : Rewriting rule d d' offers expanded visits swept) :
    d'.body.code.first? = d.body.code.first? := by
  rw [InstructionList.first?_eq, InstructionList.first?_eq, h.ids_eq,
    InstructionList.ids_eq_of_entries h.woven, h.ids_original]
  cases visits.reverse with
  | nil => rfl
  | cons v post => rfl

end RewriteRule.Rewriting

/-! ## Instructions that are wrapped -/

/-- The instruction stands behind one whose replacement has a trailer. -/
def Wrapped (code : List (Visit σ)) (y : InstrId) : Prop :=
  ∃ pre u v post, code = pre ++ u :: v :: post ∧ u.trailer ≠ [] ∧ v.site = y

namespace RewriteRule.Rewriting

variable {d d' swept : Draft σ} {offers : List Offer} {expanded : MethodBody}
  {visits pre post : List (Visit σ)} {u v : Visit σ}

theorem lastTrailer_of_not_wrapped {code : List (Visit σ)} (hsplit : code = pre ++ v :: post)
    (hnot : ¬ Wrapped code v.site) : lastTrailer (pre.map Visit.toStitch) = [] := by
  rcases List.eq_nil_or_concat pre with rfl | ⟨init, u, rfl⟩
  · rfl
  · have htrailer : lastTrailer ((init.concat u).map Visit.toStitch) = u.trailer := by
      unfold lastTrailer
      simp
    rw [htrailer]
    refine Classical.byContradiction fun hne => hnot ⟨init, u, v, post, ?_, hne, rfl⟩
    rw [hsplit]
    simp

theorem not_wrapped_next (h : Rewriting rule d d' offers expanded visits swept)
    (hsplit : visits.reverse = pre ++ u :: v :: post) (hu : u.trailer = []) :
    ¬ Wrapped visits.reverse v.site := by
  rintro ⟨pre', u', v', post', hsplit', hu', hsite⟩
  have hnodup := h.nodup_sites
  have heq : (pre ++ [u]) ++ v :: post = (pre' ++ [u']) ++ v' :: post' := by
    rw [List.append_assoc, List.append_assoc]
    exact hsplit.symm.trans hsplit'
  have hcode : visits.reverse = (pre ++ [u]) ++ v :: post := by
    rw [hsplit, List.append_assoc]
    rfl
  rw [hcode] at hnodup
  obtain ⟨hpre, -, -⟩ := split_unique hnodup heq hsite.symm
  obtain ⟨-, hlast⟩ := List.append_inj' hpre rfl
  cases hlast
  exact hu' hu

theorem not_wrapped_first (h : Rewriting rule d d' offers expanded visits swept) {id : InstrId}
    (hid : d.body.code.first? = some id) : ¬ Wrapped visits.reverse id := by
  rintro ⟨pre, u, v, post, hsplit, -, rfl⟩
  have hnodup := h.nodup_sites
  rw [InstructionList.first?_eq, h.ids_original, hsplit] at hid
  rw [hsplit] at hnodup
  have hsecond : ((pre ++ u :: v :: post).map fun v => v.site)[pre.length + 1]? = some v.site := by
    simp
  have hzero := InstructionList.getElem?_inj_of_nodup hnodup hid hsecond
  omega

/-- From an instruction that is not wrapped there is only what took its place up to the
next instruction of the original. -/
theorem stands_next (h : Rewriting rule d d' offers expanded visits swept)
    (hsplit : visits.reverse = pre ++ v :: post) (hnot : ¬ Wrapped visits.reverse v.site)
    {y : InstrId} (hy : d.body.code.next? v.site = some y) :
    Stands d'.body v.site ((v.head :: v.rest).map Instruction.said) y ∧
      (v.trailer = [] → ¬ Wrapped visits.reverse y) := by
  rw [h.next?_original hsplit] at hy
  cases post with
  | nil => cases hy
  | cons next post =>
    cases hy
    have hstands := h.stands hsplit
    rw [lastTrailer_of_not_wrapped hsplit hnot, List.nil_append] at hstands
    exact ⟨hstands, h.not_wrapped_next hsplit⟩

/-- From an instruction that was replaced there is the replacement. -/
theorem stands_replaced (h : Rewriting rule d d' offers expanded visits swept)
    (hsplit : visits.reverse = pre ++ v :: post) (hnot : ¬ Wrapped visits.reverse v.site)
    {first : Instruction} {rest trailer : List Instruction}
    (ho : v.outcome = .replaced ⟨first :: rest, trailer⟩) {y : InstrId}
    (hy : d.body.code.next? v.site = some y) :
    Stands d'.body v.site ((first :: rest).map Instruction.said) y ∧
      (trailer = [] → ¬ Wrapped visits.reverse y) := by
  obtain ⟨hhead, hrest, htrailer⟩ := Stitch.of_replaced ho
  obtain ⟨hstands, hnext⟩ := h.stands_next hsplit hnot hy
  rw [hhead, hrest, List.map_cons, v.instruction.said_recode] at hstands
  exact ⟨hstands, fun hnil => hnext (htrailer.trans hnil)⟩

/-- From an instruction that was kept there is only the trailer of the one in front. -/
theorem stands_trailer (h : Rewriting rule d d' offers expanded visits swept)
    (hsplit : visits.reverse = pre ++ u :: v :: post) (hkept : v.toStitch.IsKept)
    {y : InstrId} (hy : d.body.code.next? v.site = some y) :
    Stands d'.body v.site ((v.instruction :: u.trailer).map Instruction.said) y ∧
      ¬ Wrapped visits.reverse y := by
  have hcode : visits.reverse = (pre ++ [u]) ++ v :: post := by
    rw [hsplit, List.append_assoc]
    rfl
  rw [h.next?_original hcode] at hy
  cases post with
  | nil => cases hy
  | cons next post =>
    cases hy
    have hstands := h.stands hcode
    have hlast : lastTrailer ((pre ++ [u]).map Visit.toStitch) = u.trailer := by
      unfold lastTrailer
      simp
    rw [hlast, hkept.head_eq, hkept.rest_eq, List.append_nil] at hstands
    exact ⟨hstands, h.not_wrapped_next hcode hkept.trailer_eq⟩

end RewriteRule.Rewriting

end CilWeave
