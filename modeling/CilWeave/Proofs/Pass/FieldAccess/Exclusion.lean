import CilWeave.Proofs.Pass.FieldAccess.Replay
import CilWeave.Proofs.Record.Reading
import CilWeave.Proofs.Run.Registry

/-
Which methods a pass over the fields leaves alone.

A scan goes through its candidates and through nothing else, so a method that every type spares
comes out of it as it went in (`FieldAccess.kept_scan`). A replay goes wherever the record
leads, and asks neither whether the method is excluded nor whether its type is an interface. So
a spared method is left alone unless a record is followed that names it
(`FieldAccess.kept_run`), and if one is, it is rewritten like any other
(`FieldAccess.changed_of_named`).
-/

namespace CilWeave

/-! ## What is kept -/

namespace Module

variable {m : Module} {t t' : Token} {method : MethodDef}

theorem kept_editMethod {α : Type} {absent : α} {edit : TypeSig → Edit (Draft Unit) α}
    (hne : t' ≠ t) :
    ((editMethod t method absent edit).after m).methodDef? t' = m.methodDef? t' := by
  unfold Edit.after editMethod
  cases method.body with
  | none => rfl
  | some body =>
    simp only
    cases edit method.signature.returnType ⟨body, m.references, ()⟩ with
    | ok a d => exact methodDef?_commit_of_ne hne method d
    | error e d => exact methodDef?_commit_of_ne hne method d

theorem kept_sweep {rule : RewriteRule Unit} {methods : List Token} (hnot : t ∉ methods) :
    ((sweep rule methods).after m).methodDef? t = m.methodDef? t := by
  rw [after_sweep]
  refine sweepMethods_preserves (P := fun m' => m'.methodDef? t = m.methodDef? t)
    (fun t' ht' m' method hm' _ => ?_) rfl
  have hne : t ≠ t' := fun heq => hnot (heq ▸ ht')
  exact (kept_editMethod hne).trans hm'

end Module

/-! ## Records that are followed -/

theorem Environment.ordered_of_record? {env : Environment} {files : FileTree}
    {pass assembly : String} {record : PatchRecord}
    (h : env.record? files pass assembly = .ok (some record)) : record.Ordered := by
  unfold record? at h
  split at h
  · cases h
  · unfold PatchRecord.load at h
    split at h
    · exact PatchRecord.ordered_of_ofText h
    · cases h

namespace FieldAccess

variable {f : FieldAccess} {env : Environment} {s s' : Session} {routing : FieldRouting}
  {record : PatchRecord} {m m' : Module} {t : Token}

/-- The record names the method of a token. -/
def Names (m : Module) (record : PatchRecord) (t : Token) : Prop :=
  ∃ p ∈ record.pairs, recordedMethod? m p.1 p.2 = some t

/-! ## Methods that are spared -/

/-- Every type that has the method is an interface or excludes it. -/
def Spares (f : FieldAccess) (m : Module) (t : Token) : Prop :=
  ∀ type ∈ m.allTypes, ∀ method ∈ type.methods.toList.filterMap m.methodDef?, method.token = t →
    type.isInterface = true ∨ f.isExcluded (m.typeFullName type) method = true

theorem Spares.not_mem_candidates (h : f.Spares m t) : t ∉ (f.candidates m).map Prod.snd := by
  intro hmem
  obtain ⟨⟨typeName, _⟩, hcandidate, rfl⟩ := List.mem_map.mp hmem
  unfold candidates at hcandidate
  obtain ⟨type, htype, hmethods⟩ := List.mem_flatMap.mp hcandidate
  obtain ⟨htype, hclass⟩ := List.mem_filter.mp htype
  obtain ⟨method, hmethod, heq⟩ := List.mem_map.mp hmethods
  cases heq
  obtain ⟨hmethod, hkept⟩ := List.mem_filter.mp hmethod
  rw [Bool.and_eq_true] at hkept
  rcases h type htype method hmethod rfl with hinterface | hexcluded
  · rw [hinterface] at hclass
    cases hclass
  · rw [hexcluded] at hkept
    cases hkept.2

theorem spares_of_linked (hm : m.Linked) (hfits : m.FitsTokens) {n : Nat} {type : TypeDef}
    {method : MethodDef} (hn : m.types[n]? = some type) (ht : t ∈ type.methods.toList)
    (hmethod : m.methodDef? t = some method)
    (hspared : type.isInterface = true ∨ f.isExcluded (m.typeFullName type) method = true) :
    f.Spares m t := by
  intro type' htype' method' hmethod' htoken
  obtain ⟨t', ht', hdef'⟩ := List.mem_filterMap.mp hmethod'
  obtain ⟨k, hk⟩ := (hm.nodup_allTypes hfits.types).2 type' htype'
  obtain ⟨found, hfound, -, howner⟩ := hm.method_of_mem hfits.methods hn ht
  obtain ⟨found', hfound', htoken', howner'⟩ := hm.method_of_mem hfits.methods hk ht'
  rw [hdef'] at hfound'
  cases hfound'
  rw [htoken] at htoken'
  subst htoken'
  rw [hmethod] at hfound hdef'
  cases hfound
  cases hdef'
  rw [howner] at howner'
  cases howner'
  rw [hn] at hk
  cases hk
  exact hspared

/-! ## Scans and replays -/

theorem kept_scan {fingerprint : String} (h : f.Spares m t) :
    ((f.scan routing fingerprint).after m).methodDef? t = m.methodDef? t := by
  rw [after_scan]
  exact Module.kept_sweep h.not_mem_candidates

theorem kept_replay (h : ¬ Names m record t) :
    ((replay routing record).after m).methodDef? t = m.methodDef? t := by
  refine (replayAll_preserves
    (P := fun m' => m.Patched m' ∧ m'.methodDef? t = m.methodDef? t)
    (fun p hp m' ⟨hpatched, hkept⟩ => ?_) ⟨.refl m, rfl⟩).2
  refine ⟨hpatched.trans (patches_replayMethod routing p.1 p.2 m'), ?_⟩
  rcases after_replayMethod routing p.1 p.2 m' with hsame | ⟨t', method, hname, -, hedit⟩
  · rw [hsame]
    exact hkept
  · have hne : t ≠ t' := by
      rintro rfl
      exact h ⟨p, hp, recordedMethod?_of_patched hpatched p.1 p.2 ▸ hname⟩
    rw [hedit]
    exact (Module.kept_editMethod hne).trans hkept

/-- A spared method is kept unless a record is followed that names it. -/
theorem kept_run (h : f.Spares s.module t)
    (hnot : ∀ record, env.record? s.files passName s.module.name = .ok (some record) →
      ¬ Names s.module record t) :
    ((f.run env).after s).module.methodDef? t = s.module.methodDef? t :=
  module_run (P := fun m => m.methodDef? t = s.module.methodDef? t) rfl
    (fun _ record _ hrecord => kept_replay (hnot record hrecord)) fun _ _ _ => kept_scan h

/-- A run that follows a record and succeeds rewrites each method that is named. -/
theorem changed_of_named {report : Report} (hm : s.module.Linked) (hfits : s.module.FitsTokens)
    (hrun : f.run env s = .ok report s')
    (hrecord : env.record? s.files passName s.module.name = .ok (some record))
    (hnamed : Names s.module record t) :
    (s'.module.methodDef? t).bind MethodDef.body ≠ (s.module.methodDef? t).bind MethodDef.body := by
  rw [run_eq] at hrun
  cases hrouting : FieldRouting.ofModule f s.module env.helpers with
  | error e => rw [hrouting] at hrun; cases hrun
  | ok routing =>
    simp only [hrouting, hrecord] at hrun
    obtain ⟨m, hreplay, rfl⟩ := Edit.within_eq_ok.mp hrun
    obtain ⟨p, hp, hname⟩ := hnamed
    obtain ⟨counts, hfound, -, -, hswept, -⟩ :=
      replayAll_eq_ok routing.onlyExtends_rule.onlyImports hm hfits
        (Environment.ordered_of_record? hrecord).nodup_pairs (.refl _) hreplay
    obtain ⟨c, hc, hpname⟩ := hfound p hp
    rw [hname] at hpname
    cases hpname
    obtain ⟨method, body, body', id, i, i', ht, hbody, ht', hi, hi', hne⟩ :=
      exists_op_ne_of_rewritten (hswept.rewritten c hc)
    intro heq
    simp only [ht, ht', Option.bind_some, hbody, Option.some.injEq] at heq
    rw [heq, hi] at hi'
    cases hi'
    exact hne rfl

/-- What a pass over the fields does to a method that is spared. Whatever comes of the pass, the
method is kept unless a record is followed that names it; and a pass that follows such a record
and succeeds has rewritten it. -/
theorem run_spares_unless_named (hspared : f.Spares s.module t) :
    ((∀ record, env.record? s.files passName s.module.name = .ok (some record) →
        ¬ Names s.module record t) →
      ((f.run env).after s).module.methodDef? t = s.module.methodDef? t) ∧
    (s.module.Linked → s.module.FitsTokens → ∀ report s' record, f.run env s = .ok report s' →
      env.record? s.files passName s.module.name = .ok (some record) → Names s.module record t →
        (s'.module.methodDef? t).bind MethodDef.body ≠
          (s.module.methodDef? t).bind MethodDef.body) :=
  ⟨kept_run hspared, fun hm hfits _ _ _ => changed_of_named hm hfits⟩

/-- Saved games that can be reset. -/
def resettable : Module :=
  (Module.addMethod ⟨0x02000001⟩ "Reset" ⟨0x6⟩ ⟨true, .void, [], 0⟩
    (bodyOf [.ldarg 0, .plain .ldcI40, .of .stfld (.token ⟨0x0A000001⟩), .plain .ret])).after
      savedGames

/-- Tracks saved games, and leaves it to them to be reset. -/
def sparingReset : FieldAccess := { standard with excludedMethods := ["Reset"] }

def recording : Environment :=
  ⟨⟨Settings.version, some "c", false, true⟩, accessorHelpers, some "t.dll"⟩

/-- The module and its assembly, and no record yet. -/
def firstSession : Session := ⟨resettable, ⟨[(["t.dll"], .file .empty ⟨1700000000⟩)], ⟨1700000000⟩⟩⟩

/-- The module again, and the record of a pass that did not leave anything to it. -/
def secondSession : Session := ⟨resettable, ((standard.run recording).after firstSession).files⟩

theorem built_resettable : resettable.Built := by
  unfold resettable
  exact .addedMethod built_savedGames

theorem fitsTokens_resettable : resettable.FitsTokens :=
  ⟨by decide +kernel, by decide +kernel, show ReferenceTable.size _ < _ by decide +kernel⟩

/-- The method that resets saved games. -/
def reset : Token := ⟨0x06000001⟩

theorem spares_reset : sparingReset.Spares resettable reset :=
  spares_of_linked (n := 0) built_resettable.linked fitsTokens_resettable rfl (by decide +kernel)
    rfl (.inr (by decide +kernel))

/-- The first pass leaves it to saved games to be reset. The second one follows the record. -/
theorem run_spares_reset :
    ((sparingReset.run recording).after firstSession).module.methodDef? reset =
      resettable.methodDef? reset ∧
    (((sparingReset.run recording).after secondSession).module.methodDef? reset).bind
      MethodDef.body ≠ (resettable.methodDef? reset).bind MethodDef.body := by
  have hfirst : recording.record? firstSession.files passName "Assembly-CSharp" = .ok none := by
    decide +kernel
  have hsecond : recording.record? secondSession.files passName "Assembly-CSharp" =
      .ok (some ⟨"0.3.2 // 2023-11-14T22:13:20Z",
        [("PlayerData", ["System.Void PlayerData::Reset()"])]⟩) := by decide +kernel
  obtain ⟨report, hrun⟩ := Edit.eq_ok_of_isSome
    (show (EStateM.run' (sparingReset.run recording) secondSession).isSome = true by
      decide +kernel)
  refine ⟨(run_spares_unless_named (s := firstSession) spares_reset).1 fun record hrecord => ?_,
    (run_spares_unless_named (s := secondSession) spares_reset).2 built_resettable.linked
      fitsTokens_resettable report _ _ hrun hsecond
      ⟨("PlayerData", "System.Void PlayerData::Reset()"), by decide +kernel, by decide +kernel⟩⟩
  have hnone := hfirst.symm.trans hrecord
  cases hnone

/-- A method that is excluded is rewritten by a pass that follows a record which names it. -/
theorem not_all_spared_kept : sparingReset.Spares resettable reset ∧
    secondSession.module = resettable ∧
    ∃ report s', sparingReset.run recording secondSession = .ok report s' ∧
      (s'.module.methodDef? reset).bind MethodDef.body ≠
        (resettable.methodDef? reset).bind MethodDef.body := by
  obtain ⟨report, hrun⟩ := Edit.eq_ok_of_isSome
    (show (EStateM.run' (sparingReset.run recording) secondSession).isSome = true by
      decide +kernel)
  refine ⟨spares_reset, rfl, report, _, hrun, fun heq => ?_⟩
  have hcode := congrArg (Option.map fun body => body.code.instructions.map Instruction.op) heq
  revert hcode
  decide +kernel

end FieldAccess

end CilWeave
