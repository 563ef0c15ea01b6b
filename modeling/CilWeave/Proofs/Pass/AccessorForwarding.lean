import CilWeave.Proofs.InstructionList.Sequence
import CilWeave.Proofs.Pass.Defects
import CilWeave.Proofs.Pass.FieldAccess.Balance

/-
What an accessor is after it was forwarded.

The body of a forwarder is straight code: the arguments in order, a call and a return
(`AccessorForwarding.IsForwarder`). So a run of it comes to its return with what the backend makes
of the arguments and with nothing else (`IsForwarder.returns_iff`), and a body that the analysis of
the stack accepts hands on as many arguments as the backend takes (`IsForwarder.takes`).

Backends are looked up by name, staticness and number of parameters, and nothing compares what they
return with what the accessor returns. The analysis refuses a backend that returns nothing to an
accessor that returns a value. The other way round it has no objection, and the value stays on the
stack: the stack at the return is what it should be exactly if a backend of an accessor that returns
nothing returns nothing as well (`AccessorForwarding.run_forwards`).
-/

namespace CilWeave

open CilWeave.Module (Patched)
open Execution (Does DoesEach Heap Memory Reads Stands Starts State Steps World)

variable {refs : ReferenceTable} {returnType : TypeSig} {b : MethodBody} {n : Nat} {t : Token}
  {backend : MethodRef}

/-! ## Straight code and the depth -/

/-- Control that comes to straight code goes on behind it with the depth that is counted. -/
theorem Execution.Stands.arrives {id last : InstrId} {code : List Instruction} {depth after : Nat}
    (h : Stands b id code last) (hgoes : ∀ i ∈ code, i.op.flow.goesOn = true)
    (hid : b.Arrives refs returnType id depth)
    (hdepth : depthAfter refs returnType code depth = some after) :
    b.Arrives refs returnType last after := by
  induction h generalizing depth with
  | nil id =>
    cases hdepth
    exact hid
  | @cons id id' last i code hfetch hnext _ ih =>
    obtain ⟨j, hj, rfl⟩ := Execution.exists_get?_of_fetch? hfetch
    cases heffect : j.said.stackEffect refs returnType with
    | error e =>
      rw [depthAfter, heffect] at hdepth
      cases hdepth
    | ok effect =>
      obtain ⟨pops, pushes⟩ := effect
      rw [depthAfter_cons heffect] at hdepth
      split at hdepth
      · rename_i hle
        have hnext' : b.Arrives refs returnType id' (depth - pops + pushes) :=
          .next hid ⟨hj, pops, pushes, Instruction.stackEffect_said.mp heffect, hle, rfl⟩
            (j.moves_expanded.1 ▸ hgoes j.said List.mem_cons_self) hnext
        exact ih (fun i hi => hgoes i (List.mem_cons_of_mem _ hi)) hnext' hdepth
      · cases hdepth

namespace AccessorForwarding

/-! ## Forwarding bodies -/

/-- A run of a body comes to a return, with some values on the stack and some memory. -/
def ComesToReturn {δ ρ : Type} (w : World δ ρ) (b : MethodBody) (refs : ReferenceTable)
    (returnType : TypeSig) (arguments : List (Execution.Value δ)) (heap : Heap δ ρ)
    (results : List (Execution.Value δ)) (final : Memory δ ρ) : Prop :=
  ∃ (s s' : State δ ρ) (i : Instruction), Starts w b arguments heap s ∧
    Steps w b refs returnType s s' ∧ b.fetch? s'.here = some i ∧ i.op = .ret ∧
    s'.stack = results ∧ s'.memory = final

/-- The body pushes some number of arguments in order, calls the method of a token and returns, and
there is nothing else in it. -/
structure IsForwarder (b : MethodBody) (argumentCount : Nat) (backend : Token) : Prop where
  code : b.code.instructions.map Instruction.said = forwarder argumentCount backend
  locals : b.locals = #[]
  handlers : b.handlers = []
  room : argumentCount ≤ UInt16.size

def loads (argumentCount : Nat) : List Instruction :=
  (List.range argumentCount).map fun index => .ldarg (UInt16.ofNat index)

theorem loads_succ (n : Nat) : loads (n + 1) = loads n ++ [.ldarg (UInt16.ofNat n)] := by
  unfold loads
  rw [List.range_succ, List.map_append, List.map_singleton]

theorem forwarder_eq (n : Nat) (t : Token) :
    forwarder n t = loads n ++ [.call t, .plain .ret] := rfl

theorem flow_of_mem_loads {i : Instruction} (h : i ∈ loads n) : i.op.flow = .sequential := by
  obtain ⟨index, -, rfl⟩ := List.mem_map.mp h
  rfl

theorem depthAfter_ldargs : ∀ (indices : List UInt16) (depth : Nat),
    depthAfter refs returnType (indices.map .ldarg) depth = some (depth + indices.length)
  | [], depth => rfl
  | index :: rest, depth => by
    have hone : depthAfter refs returnType (.ldarg index :: rest.map .ldarg) depth =
        depthAfter refs returnType (rest.map .ldarg) (depth + 1) :=
      depthAfter_of_fixed rfl (Nat.zero_le depth)
    rw [List.map_cons, hone, depthAfter_ldargs rest, List.length_cons, Nat.add_right_comm,
      Nat.add_assoc]

theorem depthAfter_loads (n : Nat) : depthAfter refs returnType (loads n) 0 = some n := by
  have hindices : loads n = ((List.range n).map UInt16.ofNat).map .ldarg := by
    rw [List.map_map]
    rfl
  rw [hindices, depthAfter_ldargs, List.length_map, List.length_range, Nat.zero_add]

section Loads

variable {δ ρ : Type} {w : World δ ρ} {stack stack' : List (Execution.Value δ)} {m m' : Memory δ ρ}

/-- The loads of a forwarder push the arguments, the last one on top, and do nothing else. -/
theorem doesEach_loads_iff : ∀ {n : Nat} {stack : List (Execution.Value δ)} {m' : Memory δ ρ},
    n ≤ m.arguments.length → n ≤ UInt16.size →
    (DoesEach w refs returnType (loads n) [] m stack m' ↔
      stack = (m.arguments.take n).reverse ∧ m' = m)
  | 0, stack, m', _, _ => by
    constructor
    · intro h
      cases h
      exact ⟨rfl, rfl⟩
    · rintro ⟨rfl, rfl⟩
      exact .nil [] m'
  | n + 1, stack, m', hn, hroom => by
    have hindex : (UInt16.ofNat n).toNat = n := UInt16.toNat_ofNat_of_lt hroom
    have htake : (m.arguments.take (n + 1)).reverse =
        m.arguments[n] :: (m.arguments.take n).reverse := by
      rw [List.take_add_one, List.getElem?_eq_getElem hn, List.reverse_append]
      rfl
    rw [loads_succ, Execution.doesEach_append, htake]
    constructor
    · rintro ⟨stack', m₁, hloads, hlast⟩
      obtain ⟨rfl, rfl⟩ := (doesEach_loads_iff (Nat.le_of_succ_le hn) (Nat.le_of_succ_le hroom)).mp
        hloads
      obtain ⟨v, hv, rfl, rfl⟩ :=
        (Execution.does_load_iff rfl).mp (Execution.doesEach_singleton.mp hlast)
      rw [Memory.read, hindex, List.getElem?_eq_getElem hn] at hv
      cases hv
      exact ⟨rfl, rfl⟩
    · rintro ⟨hstack, hm'⟩
      rw [hstack, hm']
      refine ⟨_, _, (doesEach_loads_iff (Nat.le_of_succ_le hn) (Nat.le_of_succ_le hroom)).mpr
        ⟨rfl, rfl⟩, Execution.doesEach_singleton.mpr ((Execution.does_load_iff rfl).mpr
          ⟨_, ?_, rfl, rfl⟩)⟩
      rw [Memory.read, hindex, List.getElem?_eq_getElem hn]

end Loads

namespace IsForwarder

/-- The parts of a forwarder: its loads from the first instruction on, the call and the return. -/
theorem exists_parts (h : IsForwarder b n t) : ∃ first site last, b.code.first? = some first ∧
    Stands b first (loads n) site ∧ Stands b site [.call t] last ∧
    b.fetch? last = some (.plain .ret) ∧
    ∀ id i, b.fetch? id = some i → i.op = .ret → id = last := by
  have hentries : b.code.entries.map (fun e => e.2.said) = loads n ++ [.call t, .plain .ret] := by
    rw [← forwarder_eq, ← h.code, ← InstructionList.map_snd_entries, List.map_map]
    rfl
  obtain ⟨es, tail, hes, hloads, htail⟩ := List.map_eq_append_iff.mp hentries
  obtain ⟨site, tail, rfl, hsite, htail⟩ := List.map_eq_cons_iff.mp htail
  obtain ⟨last, tail, rfl, hlast, htail⟩ := List.map_eq_cons_iff.mp htail
  obtain rfl := List.map_eq_nil_iff.mp htail
  have hreads : Reads b (es ++ site :: [last]) := hes ▸ .self b
  obtain ⟨first, hfirst, hstands⟩ := hreads.stands_first
  have hcall : Stands b site.1 [.call t] last.1 := by
    have hone : Stands b site.1 (([site]).map fun e => e.2.said) last.1 := hreads.stands rfl
    rwa [List.map_singleton, hsite] at hone
  refine ⟨first, site.1, last.1, hfirst, hloads ▸ hstands, hcall, ?_, fun id i hid hop => ?_⟩
  · rw [hreads.fetch last (by simp), hlast]
  · obtain ⟨j, hj, rfl⟩ := Execution.exists_get?_of_fetch? hid
    have hmem : (id, j) ∈ es ++ [site, last] := hes ▸ InstructionList.mem_entries.mpr hj
    rw [List.mem_append, List.mem_cons, List.mem_singleton] at hmem
    rcases hmem with hmem | rfl | rfl
    · have hload : j.said ∈ loads n := hloads ▸ List.mem_map_of_mem hmem
      have hflow := flow_of_mem_loads hload
      rw [hop] at hflow
      cases hflow
    · rw [hsite] at hop
      cases hop
    · rfl

/-- A run of a forwarder comes to its return with what the backend makes of the arguments, in
order, and only with that. -/
theorem returns_iff (h : IsForwarder b n t) {δ ρ : Type} {w : World δ ρ}
    {arguments results : List (Execution.Value δ)} {heap : Heap δ ρ} {final : Memory δ ρ}
    (hlength : arguments.length = n) :
    ComesToReturn w b refs returnType arguments heap results final ↔
      Does w refs returnType (.call t) arguments.reverse ⟨arguments, [], heap⟩ results final := by
  obtain ⟨first, site, last, hfirst, hloads, hcall, hret, -⟩ := h.exists_parts
  have hlocals : b.locals.toList.map w.initial = [] := by
    rw [h.locals]
    rfl
  have hflow : ∀ i ∈ loads n ++ [.call t], i.op.flow = .sequential ∨ i.op.flow = .call := by
    intro i hi
    rcases List.mem_append.mp hi with hi | hi
    · exact .inl (flow_of_mem_loads hi)
    · exact .inr (List.mem_singleton.mp hi ▸ rfl)
  have hpushed : ∀ {stack : List (Execution.Value δ)} {m' : Memory δ ρ},
      DoesEach w refs returnType (loads n) [] ⟨arguments, [], heap⟩ stack m' ↔
        stack = arguments.reverse ∧ m' = ⟨arguments, [], heap⟩ := by
    intro stack m'
    rw [doesEach_loads_iff (Nat.le_of_eq hlength.symm) h.room, List.take_of_length_le
      (Nat.le_of_eq hlength)]
  constructor
  · rintro ⟨s, s', i, ⟨id, hid, rfl⟩, hsteps, hi, hop, rfl, rfl⟩
    rw [hfirst] at hid
    cases hid
    rw [hlocals] at hsteps
    rcases (hloads.append hcall).cases_of_steps hflow hsteps with
      ⟨front, j, back, hcode, hj, -, -⟩ | ⟨stack', m', hall, hlast⟩
    · -- There is no return among the loads and the call.
      rw [hi] at hj
      cases hj
      have hgoes := hflow i (hcode ▸ by simp)
      rw [hop] at hgoes
      rcases hgoes with hgoes | hgoes <;> cases hgoes
    · obtain ⟨stack₁, m₁, hfront, hone⟩ := Execution.doesEach_append.mp hall
      obtain ⟨rfl, rfl⟩ := hpushed.mp hfront
      have hend := hlast.eq_of_ret hret rfl
      rw [hend]
      exact Execution.doesEach_singleton.mp hone
  · intro hdoes
    have hfront := hpushed.mpr ⟨rfl, rfl⟩
    have hsteps := (hloads.append hcall).steps []
      (Execution.doesEach_append.mpr ⟨_, _, hfront, Execution.doesEach_singleton.mpr hdoes⟩)
    refine ⟨_, ⟨last, results, final, []⟩, .plain .ret, ⟨first, hfirst, rfl⟩, ?_,
      hret, rfl, rfl, rfl⟩
    rw [hlocals]
    exact hsteps

theorem static_of_pops_le (h : backend.pops ≤ backend.signature.parameters.length) :
    backend.signature.hasThis = false ∧ backend.pops = backend.signature.parameters.length := by
  unfold MethodRef.pops MethodSig.argumentCount at h ⊢
  cases hthis : backend.signature.hasThis with
  | false => exact ⟨rfl, rfl⟩
  | true =>
    rw [hthis] at h
    exact absurd h (Nat.not_succ_le_self _)

/-- A forwarder that the analysis of the stack accepts calls a static method, does not return
nothing where a value is due, and comes to its return with what the call pushes. -/
theorem takes (h : IsForwarder b n t) {k : UInt16}
    (haccepted : b.computeMaxStack refs returnType = .ok k) (hbackend : refs.method t = .ok backend)
    (hparameters : backend.signature.parameters.length = n) :
    backend.signature.hasThis = false ∧
      (returnType.isVoid = false → backend.returnType.isVoid = false) ∧
      ∃ last, b.fetch? last = some (.plain .ret) ∧
        (∀ id i, b.fetch? id = some i → i.op = .ret → id = last) ∧
        ∀ depth, b.Arrives refs returnType last depth ↔ depth = backend.pushes := by
  obtain ⟨first, site, last, hfirst, hloads, hcall, hret, honly⟩ := h.exists_parts
  have hne : b.code.ids ≠ [] := by
    intro hnil
    rw [InstructionList.first?_eq, hnil] at hfirst
    cases hfirst
  obtain ⟨hbalanced, -, -⟩ := (MethodBody.computeMaxStack_eq_ok hne k).mp haccepted
  have hsite : b.Arrives refs returnType site n :=
    hloads.arrives (fun i hi => flow_of_mem_loads hi ▸ rfl) (.entry (.first hfirst))
      (depthAfter_loads n)
  have heffect : (Instruction.call t).stackEffect refs returnType =
      .ok (backend.pops, backend.pushes) :=
    Instruction.stackEffect_of_call rfl (Instruction.calledMethod_of_method rfl hbackend)
  have hle : backend.pops ≤ n := by
    cases hcall with
    | cons hfetch _ _ => exact Execution.le_of_balanced hbalanced hsite hfetch heffect
  obtain ⟨hthis, hpops⟩ := static_of_pops_le (hparameters.symm ▸ hle)
  rw [hparameters] at hpops
  have hlast : b.Arrives refs returnType last backend.pushes := by
    refine hcall.arrives (fun i hi => List.mem_singleton.mp hi ▸ rfl) hsite ?_
    rw [depthAfter_cons heffect, if_pos hle, hpops, Nat.sub_self, Nat.zero_add]
    rfl
  refine ⟨hthis, fun hvalue => ?_, last, hret, honly, fun depth =>
    ⟨fun hd => hbalanced.agree last _ _ hd hlast, fun hd => hd ▸ hlast⟩⟩
  · -- The return needs the value.
    have hreturn : (Instruction.plain .ret).stackEffect refs returnType = .ok (1, 0) := by
      unfold Instruction.stackEffect
      rw [hvalue]
      rfl
    have hdue : 1 ≤ backend.pushes :=
      Execution.le_of_balanced hbalanced hlast hret hreturn
    unfold MethodRef.pushes at hdue
    cases hvoid : backend.returnType.isVoid with
    | false => rfl
    | true =>
      rw [hvoid] at hdue
      cases hdue

end IsForwarder

/-! ## Forwarding one method -/

theorem install_eq_ok {a : Bool} {d d' : Draft Unit} (h : install n t d = .ok a d') :
    a = true ∧ n ≤ UInt16.size ∧ ∃ code, InstructionList.ofList (forwarder n t) = .ok code ∧
      d' = { d with body := { MethodBody.empty with code } } := by
  unfold install at h
  split at h
  · cases h
  · rename_i hbody
    cases h
    unfold forwarderBody at hbody
    split at hbody
    · rename_i hroom
      cases hcode : InstructionList.ofList (forwarder n t) with
      | error e =>
        rw [hcode] at hbody
        cases hbody
      | ok code =>
        rw [hcode] at hbody
        cases hbody
        exact ⟨rfl, hroom, code, rfl, rfl⟩
    · cases hbody

theorem said_forwarder (n : Nat) (t : Token) :
    (forwarder n t).map Instruction.said = forwarder n t := by
  rw [forwarder_eq, List.map_append]
  refine congrArg (· ++ _) ?_
  unfold loads
  rw [List.map_map]
  rfl

/-- The edit that installs a forwarder leaves one that the analysis of the stack accepts. -/
theorem isForwarder_of_transact {a : Bool} {d d' : Draft Unit}
    (h : Draft.transact returnType id (install n t) d = .ok a d') :
    d'.references = d.references ∧ IsForwarder d'.body n t ∧
      d'.body.computeMaxStack d.references returnType = .ok d'.body.maxStack := by
  obtain ⟨expanded, d₁, -, hinstall, hkept, -⟩ := Draft.transact_eq_ok h
  obtain ⟨rfl, hroom, code, hcode, rfl⟩ := install_eq_ok hinstall
  obtain ⟨body, hcompact, rfl⟩ := hkept rfl
  obtain ⟨hverified, hsame⟩ := MethodBody.compact_eq_ok hcompact
  have hlength : (forwarder n t).length ≤ UInt32.size := by
    have hsize : UInt16.size + 2 ≤ UInt32.size := by decide
    rw [forwarder_eq, loads, List.length_append, List.length_map, List.length_range]
    exact Nat.le_trans (Nat.add_le_add_right hroom 2) hsize
  obtain ⟨l, hl, hentries⟩ := InstructionList.exists_ofList hlength
  obtain rfl : l = code := Except.ok.inj (hl.symm.trans hcode)
  have hcode : body.code.instructions.map Instruction.said = forwarder n t := calc
    _ = body.code.entries.map (fun e => e.2.said) := by
      rw [← InstructionList.map_snd_entries, List.map_map]
      rfl
    _ = l.entries.map (fun e => e.2.said) := (Reads.self body).said_eq (.of_rephrases hsame)
    _ = l.instructions.map Instruction.said := by
      rw [← InstructionList.map_snd_entries, List.map_map]
      rfl
    _ = forwarder n t := by
      rw [InstructionList.instructions_of_zipIdx hentries, said_forwarder]
  exact ⟨rfl, ⟨hcode, hsame.locals, hsame.handlers, hroom⟩, hverified.maxStack⟩

/-- A body forwards a method to the backend that was found for it. -/
structure Forwarded (f : AccessorForwarding) (helpers : Resolver) (refs : ReferenceTable)
    (method : MethodDef) (backend : MethodRef) (token : Token) (body : MethodBody) : Prop where
  resolved : helpers.resolve f.backendModule (f.backendOf method) = .ok backend
  named : refs.method token = .ok backend
  forwarder : IsForwarder body method.signature.argumentCount token
  accepted : body.computeMaxStack refs method.signature.returnType = .ok body.maxStack

theorem Forwarded.mono {f : AccessorForwarding} {helpers : Resolver} {later : ReferenceTable}
    {method : MethodDef} {body : MethodBody} (hgrows : refs.GrowsTo later)
    (h : f.Forwarded helpers refs method backend t body) :
    f.Forwarded helpers later method backend t body where
  resolved := h.resolved
  named := hgrows.method_eq_ok h.named
  forwarder := h.forwarder
  accepted := MethodBody.computeMaxStack_of_growsTo hgrows h.accepted

section Module

variable {f : AccessorForwarding} {helpers : Resolver} {start m m₁ m' : Module}
  {method : MethodDef}

/-- The method of a token was forwarded to its backend. -/
def ForwardsAt (f : AccessorForwarding) (helpers : Resolver) (start m' : Module) (t : Token) :
    Prop :=
  ∃ method backend token body, start.methodDef? t = some method ∧
    m'.methodDef? t = some { method with body := some body } ∧
    f.Forwarded helpers m'.references method backend token body

theorem forwardsAt_of_forward {a : Bool} (ht : m.methodDef? t = some method)
    (hbody : method.hasBody = true) (hfits : m₁.references.FitsTokens)
    (h : f.forward helpers t m = .ok a m₁) :
    f.ForwardsAt helpers m m₁ t ∧ ∀ t', t' ≠ t → m₁.methodDef? t' = m.methodDef? t' := by
  obtain ⟨old, hold⟩ := Option.isSome_iff_exists.mp hbody
  unfold forward at h
  simp only [ht] at h
  split at h
  · cases h
  · rename_i token refs himport
    obtain ⟨backend, hresolve, hintern⟩ := importMethod_eq_ok.mp himport
    simp only [Module.editMethod, hold] at h
    split at h
    · rename_i d hedit
      cases h
      obtain ⟨hrefs, hforwarder, haccepted⟩ := isForwarder_of_transact hedit
      have hrefs : d.references = refs := hrefs
      have hnamed : refs.method token = .ok backend := by
        have hlater : refs = (m.references.intern (.method backend)).2 := by rw [hintern]
        have htoken : token = (m.references.intern (.method backend)).1 := by rw [hintern]
        have hfits' : refs.FitsTokens := hrefs ▸ hfits
        subst hlater htoken
        exact ReferenceTable.method_iff.mpr (ReferenceTable.get_intern hfits')
      have ht' : Module.methodDef? { m with references := refs } t = some method := ht
      refine ⟨⟨method, backend, token, d.body, ht, Module.methodDef?_commit ht', hresolve, ?_,
        hforwarder, ?_⟩, fun t' hne => ?_⟩
      · show d.references.method token = _
        rw [hrefs]
        exact hnamed
      · show d.body.computeMaxStack d.references _ = _
        rw [hrefs]
        exact haccepted
      · exact Module.methodDef?_commit_of_ne hne method d
    · cases h

theorem kept_of_forward_error {e : Error} (ht : m.methodDef? t = some method)
    (h : f.forward helpers t m = .error e m₁) (t' : Token) :
    m₁.methodDef? t' = m.methodDef? t' := by
  rcases f.exists_tried_forward helpers (Patched.refl m) ht with
    ⟨refs, edit, m₂, failed, -, -, htried, ⟨-, a, hresult⟩ | ⟨rfl, e', -, hresult⟩⟩ |
      ⟨e', -, hresult⟩
  · rw [h] at hresult
    cases hresult
  · rw [h] at hresult
    cases hresult
    exact htried.kept (.inr rfl)
  · rw [h] at hresult
    cases hresult
    rfl

/-! ## Forwarding the accessors of some names -/

/-- These methods were forwarded, and the others are as they were. -/
structure ForwardsEach (f : AccessorForwarding) (helpers : Resolver) (start m m' : Module)
    (patched : List Token) : Prop where
  kept : ∀ t, t ∉ patched → m'.methodDef? t = m.methodDef? t
  forwarded : ∀ t ∈ patched, f.ForwardsAt helpers start m' t

/-- A method that is forwarded before others is one more. -/
theorem ForwardsEach.cons {a : Bool} {t : Token} {patched : List Token}
    (hrest : f.ForwardsEach helpers start m₁ m' patched) (hfresh : t ∉ patched)
    (ht : m.methodDef? t = some method) (hstart : start.methodDef? t = some method)
    (hbody : method.hasBody = true) (hlater : m₁.references.GrowsTo m'.references)
    (hfits : m'.references.FitsTokens) (h : f.forward helpers t m = .ok a m₁) :
    f.ForwardsEach helpers start m m' (t :: patched) := by
  obtain ⟨⟨_, backend, token, body, hold, hnew, hforwarded⟩, hothers⟩ :=
    forwardsAt_of_forward ht hbody (hlater.fitsTokens hfits) h
  obtain rfl := Option.some.inj (hold.symm.trans ht)
  constructor
  · intro t' ht'
    rw [List.mem_cons, not_or] at ht'
    rw [hrest.kept t' ht'.2, hothers t' ht'.1]
  · intro t' ht'
    rcases List.mem_cons.mp ht' with rfl | ht'
    · exact ⟨_, backend, token, body, hstart, (hrest.kept t' hfresh).trans hnew,
        hforwarded.mono hlater⟩
    · exact hrest.forwarded t' ht'

/-- The accessors that are counted as patched are forwarded, and the other methods are as they
were. -/
theorem exists_patched : ∀ (names : List String) (report : Report) {report' : Report} {m : Module},
    start.Patched m → (names.filterMap (f.accessor? start)).Nodup →
    (∀ t ∈ names.filterMap (f.accessor? start), m.methodDef? t = start.methodDef? t) →
    m'.references.FitsTokens → f.forwardEach helpers names report m = .ok report' m' →
    ∃ patched : List Token, patched.Sublist (names.filterMap (f.accessor? start)) ∧
      report'.methodsPatched = report.methodsPatched + patched.length ∧
      f.ForwardsEach helpers start m m' patched
  | [], report, report', m, _, _, _, _, h => by
    cases h
    exact ⟨[], List.Sublist.refl _, rfl, fun _ _ => rfl, nofun⟩
  | name :: rest, report, report', m, hm, hnodup, hsame, hfits, h => by
    rw [forwardEach, f.accessor?_of_patched hm] at h
    cases haccessor : f.accessor? start name with
    | none =>
      simp only [haccessor] at h
      rw [List.filterMap_cons_none haccessor] at hnodup hsame ⊢
      exact exists_patched rest { report with missed := report.missed + 1 } hm hnodup hsame hfits h
    | some t =>
      simp only [haccessor] at h
      rw [List.filterMap_cons_some haccessor] at hnodup hsame ⊢
      obtain ⟨hfresh, hnodup⟩ := List.nodup_cons.mp hnodup
      obtain ⟨ht, hsame⟩ := List.forall_mem_cons.mp hsame
      obtain ⟨method, hmethod, -, hbody⟩ := exists_methodDef?_of_accessor? haccessor
      rw [hmethod] at ht
      have hpatches := f.patches_forward helpers t
      cases hforward : f.forward helpers t m with
      | ok a m₁ =>
        simp only [hforward] at h
        have hlater : m₁.references.GrowsTo m'.references :=
          ((f.patches_forwardEach helpers rest _).of_ok h).references
        obtain ⟨-, hothers⟩ := forwardsAt_of_forward ht hbody (hlater.fitsTokens hfits) hforward
        have hsame₁ : ∀ t' ∈ rest.filterMap (f.accessor? start),
            m₁.methodDef? t' = start.methodDef? t' := by
          intro t' ht'
          rw [hothers t' (fun heq => hfresh (heq ▸ ht')), hsame t' ht']
        obtain ⟨patched, hsublist, hcount, hrest⟩ :=
          exists_patched rest _ (hm.trans (hpatches.of_ok hforward)) hnodup hsame₁ hfits h
        refine ⟨t :: patched, hsublist.cons_cons t, ?_,
          hrest.cons (fun hmem => hfresh (hsublist.subset hmem)) ht hmethod hbody hlater hfits
            hforward⟩
        rw [hcount, List.length_cons]
        show report.methodsPatched + 1 + _ = _
        rw [Nat.add_assoc, Nat.add_comm 1]
      | error e m₁ =>
        simp only [hforward] at h
        split at h
        · have hkept := kept_of_forward_error ht hforward
          obtain ⟨patched, hsublist, hcount, hrest⟩ :=
            exists_patched rest _ (hm.trans (hpatches.of_error hforward)) hnodup
              (fun t' ht' => (hkept t').trans (hsame t' ht')) hfits h
          exact ⟨patched, hsublist.cons t, hcount,
            fun t' ht' => (hrest.kept t' ht').trans (hkept t'), hrest.forwarded⟩
        · cases h

/-- A pass that ends with its report has forwarded the accessors that it counts as patched, and
nothing else. -/
theorem run_eq_ok {report : Report} (h : f.run helpers m = .ok report m')
    (hfits : m'.references.FitsTokens) :
    ∃ patched : List Token, patched.Sublist (accessors.filterMap (f.accessor? m)) ∧
      report.methodsPatched = patched.length ∧ f.ForwardsEach helpers m m m' patched := by
  unfold run at h
  split at h
  · cases h
  · obtain ⟨patched, hsublist, hcount, hforwards⟩ := exists_patched accessors .nothing
      (Patched.refl m) (f.nodup_accessors m) (fun _ _ => rfl) hfits h
    exact ⟨patched, hsublist, hcount.trans (Nat.zero_add _), hforwards⟩

end Module

/-! ## The backend -/

/-- A method of a helper is the backend of an accessor: the one static method of the backend type
with the name of the accessor and as many parameters as the accessor has arguments. -/
structure IsBackend (f : AccessorForwarding) (helpers : Resolver) (method : MethodDef)
    (helper : Module) (found : MethodDef) : Prop where
  find : helpers.find f.backendModule = .ok helper
  only : ∃ type, helper.findType? f.backendType = some type ∧
    (f.backendOf method).candidates helper type = [found]
  name : found.name = method.name
  static : found.isStatic = true
  takes : found.signature.parameters.length = method.signature.argumentCount

theorem exists_isBackend {f : AccessorForwarding} {helpers : Resolver} {method : MethodDef}
    (h : helpers.resolve f.backendModule (f.backendOf method) = .ok backend) :
    ∃ helper found, f.IsBackend helpers method helper found ∧
      helper.methodRef found = backend := by
  obtain ⟨helper, found, hfind, hfound, hbackend⟩ := Resolver.resolve_eq_ok.mp h
  have haccepts := MethodQuery.accepts_of_resolve hfound
  simp only [MethodQuery.accepts, backendOf, MethodQuery.named, MethodQuery.meets,
    Bool.and_eq_true, beq_iff_eq, Bool.and_true] at haccepts
  obtain ⟨⟨hname, htakes⟩, hstatic⟩ := haccepts
  exact ⟨helper, found, ⟨hfind, MethodQuery.resolve_eq_ok.mp hfound, hname, hstatic, htakes⟩,
    hbackend⟩

/-! ## Exactness -/

/-- Control comes to a return of a method with one value on the stack, or with none if the method
returns nothing. -/
def ReturnsWhatIsDue (b : MethodBody) (refs : ReferenceTable) (returnType : TypeSig) : Prop :=
  ∀ id i depth, b.fetch? id = some i → i.op = .ret → b.Arrives refs returnType id depth →
    depth = if returnType.isVoid then 0 else 1

/-- A body hands the arguments of an accessor on to a backend, and what it hands back is what the
backend returns. -/
structure HandsOn (b : MethodBody) (refs : ReferenceTable) (method : MethodDef)
    (backend : MethodRef) (token : Token) : Prop where
  forwarder : IsForwarder b method.signature.argumentCount token
  named : refs.method token = .ok backend
  hasNoThis : backend.signature.hasThis = false
  takes : backend.signature.argumentCount = method.signature.argumentCount
  returns : ∀ {δ ρ : Type} (w : World δ ρ) (arguments results : List (Execution.Value δ))
    (heap : Heap δ ρ) (final : Memory δ ρ),
    arguments.length = method.signature.argumentCount →
    (ComesToReturn w b refs method.signature.returnType arguments heap results final ↔
      Does w refs method.signature.returnType (.call token) arguments.reverse
        ⟨arguments, [], heap⟩ results final)
  depth : ∃ last, b.fetch? last = some (.plain .ret) ∧
    (∀ id i, b.fetch? id = some i → i.op = .ret → id = last) ∧
    ∀ depth, b.Arrives refs method.signature.returnType last depth ↔ depth = backend.pushes
  due : ReturnsWhatIsDue b refs method.signature.returnType ↔
    (method.signature.returnType.isVoid = true → backend.returnType.isVoid = true)

theorem Forwarded.handsOn {f : AccessorForwarding} {helpers : Resolver} {method found : MethodDef}
    {helper : Module} (h : f.Forwarded helpers refs method (helper.methodRef found) t b)
    (hbackend : f.IsBackend helpers method helper found) :
    HandsOn b refs method (helper.methodRef found) t := by
  obtain ⟨hthis, hvalue, last, hret, honly, hdepth⟩ :=
    h.forwarder.takes h.accepted h.named hbackend.takes
  refine ⟨h.forwarder, h.named, hthis, ?_, fun w arguments results heap final hlength =>
    h.forwarder.returns_iff hlength, ⟨last, hret, honly, hdepth⟩, fun hdue hvoid => ?_,
    fun hvoid id i depth hi hop hd => ?_⟩
  · unfold MethodSig.argumentCount
    rw [hthis]
    exact hbackend.takes
  · have hnone := hdue last _ _ hret rfl ((hdepth _).mpr rfl)
    rw [if_pos hvoid] at hnone
    unfold MethodRef.pushes at hnone
    split at hnone
    · assumption
    · cases hnone
  · obtain rfl := honly id i hi hop
    obtain rfl := (hdepth depth).mp hd
    unfold MethodRef.pushes
    cases hreturn : method.signature.returnType.isVoid with
    | true => rw [hvoid hreturn]
    | false => rw [hvalue hreturn]

/-- The accessors that are counted as patched hand their arguments on to their backends and are
nothing but that. At the return there is on the stack what is due, unless the accessor returns
nothing and its backend returns a value. -/
theorem run_forwards {f : AccessorForwarding} {helpers : Resolver} {m m' : Module}
    {report : Report} (hrun : f.run helpers m = .ok report m')
    (hfits : m'.references.FitsTokens) :
    ∃ patched : List Token, patched.Nodup ∧ report.methodsPatched = patched.length ∧
      (∀ t, t ∉ patched → m'.methodDef? t = m.methodDef? t) ∧
      ∀ t ∈ patched, (∃ name ∈ accessors, f.accessor? m name = some t) ∧
        ∃ method body helper found token, m.methodDef? t = some method ∧
          m'.methodDef? t = some { method with body := some body } ∧
          f.IsBackend helpers method helper found ∧
          HandsOn body m'.references method (helper.methodRef found) token := by
  obtain ⟨patched, hsublist, hcount, hkept, hall⟩ := run_eq_ok hrun hfits
  refine ⟨patched, (f.nodup_accessors m).sublist hsublist, hcount, hkept, fun t ht =>
    ⟨List.mem_filterMap.mp (hsublist.subset ht), ?_⟩⟩
  obtain ⟨method, backend, token, body, hold, hnew, hforwarded⟩ := hall t ht
  obtain ⟨helper, found, hbackend, rfl⟩ := exists_isBackend hforwarded.resolved
  exact ⟨method, body, helper, found, token, hold, hnew, hbackend,
    hforwarded.handsOn hbackend⟩

/-! ## Saved games -/

/-- A module with one type, with methods of some names and signatures that have the same body. -/
def moduleWith (m : Module) (flags : MethodFlags) (body : Option MethodBody)
    (methods : List (String × MethodSig)) : Module :=
  methods.foldl (fun m (name, signature) =>
    (Module.addMethod ⟨0x02000001⟩ name flags signature body).after m) m

def savedGames (methods : List (String × MethodSig)) : Module :=
  moduleWith ((Module.empty "Assembly-CSharp").addType "" "PlayerData" .isPublic).2 ⟨0x6⟩
    (MethodBody.ofList [.plain .ldnull, .plain .throw]).toOption methods

/-- The helper with the cache, with some static methods. -/
def caches (methods : List (String × MethodSig)) : Resolver :=
  ⟨[moduleWith ((Module.empty "SilksongPrepatcher").addType "SilksongPrepatcher.PlayerData"
    "PDCache" .isPublic).2 ⟨0x16⟩ none methods]⟩

def twoAccessors : Module :=
  savedGames [("GetInt", .forInstance .int32 [.string]),
    ("SetInt", .forInstance .void [.string, .int32])]

/-- A cache that says, too, whether it had the value before. -/
def talkative : Resolver :=
  caches [("GetInt", .forStatic .int32 [.object, .string]),
    ("SetInt", .forStatic .boolean [.object, .string, .int32])]

/-- Both accessors are forwarded to a cache. -/
theorem run_forwards_twoAccessors : ∃ (report : Report) (m' : Module) (patched : List Token),
    standard.run talkative twoAccessors = .ok report m' ∧ m'.references.FitsTokens ∧
      report.methodsPatched = 2 ∧ patched.Nodup ∧ report.methodsPatched = patched.length ∧
      (∀ t, t ∉ patched → m'.methodDef? t = twoAccessors.methodDef? t) ∧
      ∀ t ∈ patched, (∃ name ∈ accessors, standard.accessor? twoAccessors name = some t) ∧
        ∃ method body helper found token, twoAccessors.methodDef? t = some method ∧
          m'.methodDef? t = some { method with body := some body } ∧
          standard.IsBackend talkative method helper found ∧
          HandsOn body m'.references method (helper.methodRef found) token := by
  have hcounts : EStateM.run' (standard.run talkative) twoAccessors =
      some { Report.nothing with methodsPatched := 2, replaced := 2, missed := 6 } := by
    decide +kernel
  have hfits : ((standard.run talkative).after twoAccessors).references.size < 0x1000000 := by
    decide +kernel
  have hrun := Edit.eq_ok_of_run' hcounts
  obtain ⟨patched, hforwards⟩ := run_forwards hrun hfits
  exact ⟨_, _, patched, hrun, hfits, rfl, hforwards⟩

/-- The backend that says whether the cache had the value before. -/
def tellsWhetherSet : MethodRef :=
  .plain (.ofClass "SilksongPrepatcher.PlayerData.PDCache") "SetInt"
    (.forStatic .boolean [.object, .string, .int32])

/-- Saved games with an accessor that returns nothing. -/
def oneSetter : Module := savedGames [("SetInt", .forInstance .void [.string, .int32])]

/-- The accessors that are counted as patched do not all return what is due: where the cache says
whether it had the value, this is left on the stack of an accessor that returns nothing. -/
theorem not_all_due : ¬ ∀ (f : AccessorForwarding) (helpers : Resolver) (m m' : Module)
    (report : Report), f.run helpers m = .ok report m' → m'.references.FitsTokens →
    ∃ patched : List Token, patched.Nodup ∧ report.methodsPatched = patched.length ∧
      ∀ t ∈ patched, (∃ name ∈ accessors, f.accessor? m name = some t) ∧
        ∃ method body, m.methodDef? t = some method ∧
          m'.methodDef? t = some { method with body := some body } ∧
          ReturnsWhatIsDue body m'.references method.signature.returnType := by
  have hcounts : EStateM.run' (standard.run talkative) oneSetter =
      some { Report.nothing with methodsPatched := 1, replaced := 1, missed := 7 } := by
    decide +kernel
  have hfits : ((standard.run talkative).after oneSetter).references.size < 0x1000000 := by
    decide +kernel
  have hrun := Edit.eq_ok_of_run' hcounts
  have honly : accessors.filterMap (standard.accessor? oneSetter) = [⟨0x06000001⟩] := by
    decide +kernel
  intro h
  obtain ⟨patched, -, hcount, hall⟩ := h _ _ _ _ _ hrun hfits
  obtain ⟨t, ht⟩ := List.length_eq_one_iff.mp hcount.symm
  obtain ⟨hname, method, body, hold, hnew, hdue⟩ := hall t (ht ▸ List.mem_singleton_self t)
  -- The other account of the run says what the body is.
  obtain ⟨forwarded, hsublist, hcount', -, hforwards⟩ := run_eq_ok hrun hfits
  have hmem := List.mem_filterMap.mpr hname
  rw [honly] at hsublist hmem
  obtain rfl := List.mem_singleton.mp hmem
  obtain rfl := hsublist.eq_of_length hcount'.symm
  obtain ⟨_, backend, token, _, hold', hnew', hforwarded⟩ := hforwards _ hmem
  rw [hold] at hold'
  cases hold'
  rw [hnew] at hnew'
  obtain rfl := Option.some.inj (congrArg MethodDef.body (Option.some.inj hnew'))
  obtain ⟨helper, found, hbackend, rfl⟩ := exists_isBackend hforwarded.resolved
  have hvoid := (hforwarded.handsOn hbackend).due.mp hdue
  -- The accessor returns nothing, its backend does not.
  have hmismatch : (oneSetter.methodDef? ⟨0x06000001⟩).map (fun method =>
      (method.signature.returnType, talkative.resolve standard.backendModule
        (standard.backendOf method))) = some (.void, .ok tellsWhetherSet) := by decide +kernel
  rw [hold, Option.map_some, Option.some.injEq, Prod.mk.injEq, hforwarded.resolved] at hmismatch
  obtain ⟨hreturn, hresolved⟩ := hmismatch
  rw [hreturn, Except.ok.inj hresolved] at hvoid
  cases hvoid rfl

end AccessorForwarding

end CilWeave
