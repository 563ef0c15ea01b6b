import Mathlib.Algebra.BigOperators.Group.List.Basic
import CilWeave.Proofs.Module.Completeness
import CilWeave.Proofs.Pass.FieldAccess.Exclusion
import CilWeave.Proofs.Pass.FieldAccess.Tracking
import CilWeave.Proofs.Pass.Turns
import CilWeave.Proofs.Rewrite.Counting

/-
A scan finds every access to a tracked field.

The rewrite of one body leaves no load and no store of a tracked field, and leaves the addresses
it declined (`FieldRouting.routed_of_rewrite`). Methods are all that is imported on the way, so
the turn of one candidate changes nothing about the accesses in another one, and the counts of a
scan are sums over the accesses there were at the start (`FieldAccess.exists_scan`). A pass that
finds no record is such a scan (`FieldAccess.run_complete`).
-/

namespace CilWeave

namespace FieldRouting

open RewriteRule (Rewriting)

variable {r : FieldRouting} {refs : ReferenceTable} {returnType : TypeSig} {b : MethodBody}
  {d d' swept : Draft Unit} {offers : List Offer} {expanded : MethodBody}
  {visits : List (Visit Unit)}

/-! ## One body -/

/-- How many accesses to tracked fields a body has. -/
def accesses (r : FieldRouting) (refs : ReferenceTable) (b : MethodBody) : Nat :=
  b.code.instructions.countP (r.applies refs)

/-- No load of a tracked field and no store to one is left, and what had no access to one says
what it said; access to another field is even spelled as it was. -/
structure Routed (r : FieldRouting) (refs : ReferenceTable) (b b' : MethodBody) : Prop where
  remaining : ∀ i ∈ b'.code.instructions, r.applies refs i = true → i.op = .ldflda
  untouched : ∀ id i, b.code.get? id = some i → r.applies refs i = false →
    ∃ i', b'.code.get? id = some i' ∧ i'.SaysSame i ∧
      (isAccess i.op = true → i'.op = i.op ∧ i'.operand = i.operand)

theorem addsMethods_visits (h : Rewriting r.rule d d' offers expanded visits swept) :
    d.references.AddsMethods d'.references ∧
      ∀ v ∈ visits, d.references.AddsMethods v.draft.references := by
  obtain ⟨scratch, hvisits⟩ := h.visited
  have hprovided := provided_addsMethods
  obtain ⟨hall, heach⟩ := hvisits.supplies hprovided.refl hprovided.trans (hprovided.rule r)
  rw [h.references]
  exact ⟨hall, fun v hv => (heach v hv).1⟩

/-- What comes of the visit of an instruction: only an access to a tracked field is offered, only
an address is declined, and what is put in has no access to a field. -/
theorem visit_cases (h : Rewriting r.rule d d' offers expanded visits swept) {v : Visit Unit}
    (hv : v ∈ visits) :
    v.outcome = .passed ∧ r.applies d.references v.instruction = false ∨
      v.outcome = .declined ∧ r.applies d.references v.instruction = true ∧
        v.instruction.op = .ldflda ∨
      (∃ replacement, v.outcome = .replaced replacement) ∧
        r.applies d.references v.instruction = true ∧ IsPlain v.head ∧
        ∀ i ∈ v.rest ++ v.trailer, IsPlain i := by
  obtain ⟨scratch, hvisits⟩ := h.visited
  have hadds := (addsMethods_visits h).2 v hv
  have hget := h.get? v hv
  have happliesAt : r.rule.appliesAt v.draft v.site = r.applies d.references v.instruction := by
    simp only [RewriteRule.appliesAt, hget]
    exact applies_addsMethods hadds v.instruction
  obtain ⟨left, rest, hleaves⟩ := RewriteRule.leaves_of_mem hvisits hv
  cases hleaves with
  | passed ho happlies => exact .inl ⟨ho, happliesAt ▸ happlies⟩
  | declined ho happlies hbuild =>
    rw [happliesAt] at happlies
    refine .inr (.inl ⟨ho, happlies, declined_is_address hget ?_ hbuild⟩)
    exact (applies_addsMethods hadds v.instruction).trans happlies
  | @replaced replacement s body ho happlies hbuild hreplace =>
    obtain ⟨i, t, field, -, -, -, hbuilds⟩ := rule_eq_ok hbuild
    have hplain := hbuilds.isPlain
    obtain ⟨sequence, trailer⟩ := replacement
    cases sequence with
    | nil => exact absurd rfl (MethodBody.sequence_ne_nil_of_replace hreplace)
    | cons first rest =>
      obtain ⟨hhead, hrest, htrailer⟩ := Stitch.of_replaced ho
      refine .inr (.inr ⟨⟨_, ho⟩, happliesAt ▸ happlies, ?_, ?_⟩)
      · rw [hhead]
        exact hplain first List.mem_cons_self
      · rw [hrest, htrailer]
        exact fun j hj => hplain j (List.mem_cons_of_mem first hj)

/-- At the old sites, only addresses that were declined have access to tracked fields. -/
theorem applies_head (h : Rewriting r.rule d d' offers expanded visits swept) {v : Visit Unit}
    (hv : v ∈ visits) : r.applies d.references v.head = true ↔ v.outcome = .declined := by
  have hkept : (∀ replacement, v.outcome ≠ .replaced replacement) → v.head = v.instruction :=
    fun hnot => Stitch.IsKept.head_eq hnot
  rcases visit_cases h hv with
    ⟨ho, happlies⟩ | ⟨ho, happlies, -⟩ | ⟨⟨replacement, ho⟩, -, hplain, -⟩
  · rw [hkept fun _ => by rw [ho]; nofun, happlies, ho]
    exact iff_of_false nofun nofun
  · rw [hkept fun _ => by rw [ho]; nofun, happlies, ho]
    exact iff_of_true rfl rfl
  · rw [applies_eq_false hplain.isAccess_eq, ho]
    exact iff_of_false nofun nofun

theorem not_applies_new (h : Rewriting r.rule d d' offers expanded visits swept) {v : Visit Unit}
    (hv : v ∈ visits) : ∀ i ∈ v.rest ++ v.trailer, r.applies d.references i = false := by
  intro i hi
  rcases visit_cases h hv with ⟨ho, -⟩ | ⟨ho, -⟩ | ⟨-, -, -, hplain⟩
  · rw [Stitch.IsKept.rest_eq fun _ => by rw [ho]; nofun,
      Stitch.IsKept.trailer_eq fun _ => by rw [ho]; nofun] at hi
    cases hi
  · rw [Stitch.IsKept.rest_eq fun _ => by rw [ho]; nofun,
      Stitch.IsKept.trailer_eq fun _ => by rw [ho]; nofun] at hi
    cases hi
  · exact applies_eq_false (hplain i hi).isAccess_eq

theorem remaining_of_rewriting (h : Rewriting r.rule d d' offers expanded visits swept) :
    ∀ i ∈ d'.body.code.instructions, r.applies d.references i = true → i.op = .ldflda := by
  -- Counted are the accesses other than to addresses: there are none at the old sites.
  have hnone : d'.body.code.instructions.countP
      (fun i => r.applies d.references i && !(i.op == .ldflda)) = 0 := by
    rw [h.countP_result ?_ ?_, List.countP_eq_zero]
    · intro v hv hother
      obtain ⟨happlies, hop⟩ := Bool.and_eq_true_iff.mp hother
      have ho := (applies_head h hv).mp happlies
      rcases visit_cases h hv with ⟨ho', -⟩ | ⟨-, -, haddress⟩ | ⟨⟨_, ho'⟩, -⟩
      · cases ho.symm.trans ho'
      · rw [Stitch.IsKept.head_eq fun _ => by rw [ho]; nofun, haddress] at hop
        cases hop
      · cases ho.symm.trans ho'
    · intro i i' hsame
      rw [applies_saysSame hsame]
      cases happlies : r.applies d.references i with
      | false => rfl
      | true => rw [(op_of_applies hsame (applies_iff.mp happlies).1).1]
    · intro v hv i hi
      rw [not_applies_new h hv i hi, Bool.false_and]
  intro i hi happlies
  have hop := List.countP_eq_zero.mp hnone i hi
  rw [happlies, Bool.true_and, Bool.not_eq_true', Bool.not_eq_false] at hop
  exact eq_of_beq hop

theorem untouched_of_rewriting (h : Rewriting r.rule d d' offers expanded visits swept)
    {id : InstrId} {i : Instruction} (hi : d.body.code.get? id = some i)
    (hnot : r.applies d.references i = false) :
    ∃ i', d'.body.code.get? id = some i' ∧ i'.SaysSame i ∧
      (isAccess i.op = true → i'.op = i.op ∧ i'.operand = i.operand) := by
  obtain ⟨pre, v, post, hsplit, rfl⟩ := h.exists_split (InstructionList.mem_ids_of_get? hi)
  have hv := Rewriting.mem_of_split hsplit
  obtain ⟨j, hj, hsame⟩ := h.says_original hv
  cases hi.symm.trans hj
  have hkept : v.toStitch.IsKept := by
    rcases visit_cases h hv with ⟨ho, -⟩ | ⟨-, happlies, -⟩ | ⟨-, happlies, -⟩
    · exact fun _ => by rw [ho]; nofun
    · rw [applies_saysSame hsame, hnot] at happlies
      cases happlies
    · rw [applies_saysSame hsame, hnot] at happlies
      cases happlies
  obtain ⟨i', hi', hwoven⟩ := h.saysSame_woven (hkept.head_eq ▸ h.mem_woven hv)
  have hwhole := hwoven.trans hsame
  exact ⟨i', hi', hwhole, op_of_applies hwhole⟩

/-- A rewrite leaves no load of a tracked field and no store to one, and counts what it does. -/
theorem routed_of_rewrite (h : r.rule.rewrite returnType ⟨b, refs, ()⟩ = .ok offers d') :
    refs.AddsMethods d'.references ∧ r.Routed refs b d'.body ∧
      r.accesses refs d'.body = Offer.missedCount offers ∧
      r.accesses refs b = Offer.replacedCount offers + Offer.missedCount offers := by
  obtain ⟨expanded, visits, swept, hr⟩ := RewriteRule.rewriting_of_ok h
  have hremaining := remaining_of_rewriting hr
  refine ⟨(addsMethods_visits hr).1,
    ⟨hremaining, fun _ _ hi hnot => untouched_of_rewriting hr hi hnot⟩, ?_, ?_⟩
  · rw [accesses, hr.countP_result (fun i i' hsame => applies_saysSame hsame)
      (fun v hv => not_applies_new hr hv), hr.missedCount_offers]
    refine List.countP_congr fun v hv => ?_
    rw [beq_iff_eq]
    exact applies_head hr hv
  · rw [RewriteRule.count_offers, accesses]
    refine (hr.length_offers (r.applies_expanded refs) fun v hv => ?_).symm
    simp only [RewriteRule.appliesAt, hr.get? v hv]
    exact applies_addsMethods ((addsMethods_visits hr).2 v hv) v.instruction

theorem accesses_addsMethods {later : ReferenceTable} (h : refs.AddsMethods later)
    (b : MethodBody) : r.accesses later b = r.accesses refs b :=
  List.countP_congr fun i _ => by rw [applies_addsMethods h]

/-! ## One method -/

variable {m m' : Module} {t : Token} {result : Option (List Offer)}

/-- How many accesses to tracked fields the method of a token has. -/
def accessesAt (r : FieldRouting) (m : Module) (t : Token) : Nat :=
  ((m.methodDef? t).bind MethodDef.body).elim 0 (r.accesses m.references)

theorem accessesAt_eq {method : MethodDef} (ht : m.methodDef? t = some method)
    (hbody : method.body = some b) : r.accessesAt m t = r.accesses m.references b := by
  rw [accessesAt, ht, Option.bind_some, hbody, Option.elim_some]

theorem accessesAt_of_kept (h : m.references.AddsMethods m'.references)
    (hkept : m'.methodDef? t = m.methodDef? t) : r.accessesAt m' t = r.accessesAt m t := by
  rw [accessesAt, accessesAt, hkept]
  cases (m.methodDef? t).bind MethodDef.body with
  | none => rfl
  | some b => exact accesses_addsMethods h b

/-- What a turn leaves of a method, and how it counts the accesses to tracked fields. -/
theorem of_turn (h : Module.Turn ReferenceTable.AddsMethods r.rule m m' t result)
    (hrefs : m.references.AddsMethods m'.references) :
    r.accessesAt m' t + Module.replacedIn result = r.accessesAt m t ∧
      (result.isNone = false → Module.missedIn result = r.accessesAt m' t ∧
        ∀ method b, m.methodDef? t = some method → method.body = some b →
          ∃ b', m'.methodDef? t = some { method with body := some b' } ∧
            r.Routed m.references b b') ∧
      (result.isNone = true → m'.methodDef? t = m.methodDef? t) := by
  cases h with
  | absent ht ht' =>
    refine ⟨accessesAt_of_kept hrefs (ht'.trans ht.symm), fun _ => ⟨?_, ?_⟩, nofun⟩
    · rw [accessesAt, ht']
      rfl
    · intro method b hmethod
      cases ht.symm.trans hmethod
  | bodiless ht hbody ht' =>
    refine ⟨accessesAt_of_kept hrefs (ht'.trans ht.symm), fun _ => ⟨?_, ?_⟩, nofun⟩
    · rw [accessesAt, ht', Option.bind_some, hbody]
      rfl
    · intro method b hmethod hb
      cases ht.symm.trans hmethod
      cases hbody.symm.trans hb
  | @edited method b refs offers d ht hbody hbefore hrewrite hafter ht' =>
    obtain ⟨hadds, hrouted, hleft, hall⟩ := routed_of_rewrite hrewrite
    have hsame : ∀ i, r.applies refs i = r.applies m.references i := applies_addsMethods hbefore
    have hmissed : r.accessesAt m' t = Offer.missedCount offers := by
      rw [accessesAt_eq ht' rfl, accesses_addsMethods (hadds.trans hafter), hleft]
    have htotal : r.accessesAt m t =
        Offer.replacedCount offers + Offer.missedCount offers := by
      rw [accessesAt_eq ht hbody, ← accesses_addsMethods hbefore, hall]
    refine ⟨?_, fun _ => ⟨hmissed.symm, ?_⟩, nofun⟩
    · rw [hmissed, htotal, Nat.add_comm]
      rfl
    · intro method' b' hmethod hb'
      cases ht.symm.trans hmethod
      cases hbody.symm.trans hb'
      refine ⟨d.body, ht', fun i hi happlies => ?_, fun id i hi happlies => ?_⟩
      · exact hrouted.remaining i hi ((hsame i).trans happlies)
      · exact hrouted.untouched id i hi ((hsame i).trans happlies)
  | failed ht hbody hbefore hrewrite hafter ht' =>
    exact ⟨accessesAt_of_kept hrefs (ht'.trans ht.symm), nofun, fun _ => ht'.trans ht.symm⟩

end FieldRouting

namespace FieldAccess

open FieldRouting CilWeave.Module

variable {f : FieldAccess} {r : FieldRouting} {m m' : Module} {typeName : String} {t : Token}

/-! ## Candidates -/

def candidateTokens (f : FieldAccess) (m : Module) : List Token := (f.candidates m).map Prod.snd

/-- What a scan makes of a module, if some of the candidates failed. -/
structure Routes (f : FieldAccess) (r : FieldRouting) (m m' : Module) (failed : List Token) :
    Prop where
  patched : m.Patched m'
  references : m.references.AddsMethods m'.references
  different : failed.Nodup
  candidates : ∀ t ∈ failed, t ∈ f.candidateTokens m
  kept : ∀ t, t ∈ failed ∨ t ∉ f.candidateTokens m → m'.methodDef? t = m.methodDef? t
  routed : ∀ t ∈ f.candidateTokens m, t ∉ failed → ∀ method b, m.methodDef? t = some method →
    method.body = some b → ∃ b', m'.methodDef? t = some { method with body := some b' } ∧
      r.Routed m.references b b'

section

variable {turns : List (Token × Option (List Offer))}
  (h : Turns ReferenceTable.AddsMethods r.rule m m' (f.candidateTokens m) turns)

include h

end

/-! ## Scans -/

end FieldAccess

end CilWeave
