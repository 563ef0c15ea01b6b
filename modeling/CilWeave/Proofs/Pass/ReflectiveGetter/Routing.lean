import CilWeave.Proofs.Pass.ReflectiveGetter.Window
import CilWeave.Proofs.Pass.Sweep

/-
What becomes of a reflective read that is routed through the getter.

The window that is found has a load of a local, a load of an argument, the question for the value
and an unboxing in it (`Found`). Afterwards the two loads have changed places, the name of the field
is asked for, and the getter is called at the type that was unboxed to; everything else in the body
is as it was (`Reading.Routes`, `exists_routes`).
-/

namespace CilWeave.ReflectiveGetter

open Execution

variable {refs later : ReferenceTable} {returnType : TypeSig} {b b' : MethodBody} {w : Window}
  {methodName : String} {getter : MethodRef}

/-! ## Finding and rewriting the window -/

/-- What stands in a window that was found. -/
structure Found (refs : ReferenceTable) (b : MethodBody) (w : Window) : Prop where
  loadField : ∃ i, b.code.get? w.loadField = some i ∧ i.op = .ldloc
  loadObject : ∃ i, b.code.get? w.loadObject = some i ∧ i.op = .ldarg
  getValue : ∃ i, b.code.get? w.getValue = some i ∧ asksForValue refs i = true
  unbox : ∃ i, b.code.get? w.unbox = some i ∧ (i.op = .unbox ∨ i.op = .unboxAny)
  second : b.code.next? w.loadField = some w.loadObject
  third : b.code.next? w.loadObject = some w.getValue
  fourth : b.code.next? w.getValue = some w.unbox

theorem next?_of_prev? {l : InstructionList} {id x : InstrId} (h : l.prev? id = some x) :
    l.next? x = some id :=
  InstructionList.next?_eq_some_iff.mpr (InstructionList.prev?_eq_some_iff.mp h)

theorem found_of_findWindow (h : findWindow b refs methodName = .ok w) : Found refs b w := by
  unfold findWindow at h
  simp only at h
  split at h
  · cases h
  · rename_i getValue hask
    obtain ⟨⟨id, ask⟩, hfind, rfl⟩ := Option.map_eq_some_iff.mp hask
    have hmem := List.mem_of_find?_eq_some hfind
    have hasks := List.find?_some hfind
    split at h
    · rename_i loadField loadObject unbox hfield hobject hunbox
      obtain ⟨_, hobject', hfield⟩ := Option.bind_eq_some_iff.mp hfield
      rw [hobject] at hobject'
      cases hobject'
      have opcode : ∀ {id : InstrId} {op : OpCode},
          (b.code.get? id).map Instruction.op = some op →
          ∃ i, b.code.get? id = some i ∧ i.op = op :=
        fun h => Option.map_eq_some_iff.mp h
      split at h
      · cases h
      · rename_i hldloc
        split at h
        · cases h
        · rename_i hldarg
          split at h
          · cases h
          · rename_i hboxed
            cases h
            simp only [bne_iff_ne, ne_eq, Decidable.not_not] at hldloc hldarg
            rw [Bool.and_eq_true, bne_iff_ne, bne_iff_ne, Decidable.not_and_iff_not_or_not,
              Decidable.not_not, Decidable.not_not] at hboxed
            refine ⟨opcode hldloc, opcode hldarg, ⟨ask, InstructionList.mem_entries.mp hmem, hasks⟩,
              ?_, next?_of_prev? hfield, next?_of_prev? hobject, hunbox⟩
            rcases hboxed with hboxed | hboxed
            · obtain ⟨i, hi, hop⟩ := opcode hboxed
              exact ⟨i, hi, .inl hop⟩
            · obtain ⟨i, hi, hop⟩ := opcode hboxed
              exact ⟨i, hi, .inr hop⟩
    · cases h

/-- The instructions of a window change their places or are replaced. -/
structure Rewritten (w : Window) (first second : Instruction) (name getVariable : Token)
    (b b' : MethodBody) : Prop where
  mapped : MethodBody.Mapped (fun id i =>
    if id = w.loadField then second
    else if id = w.loadObject then first
    else if id = w.getValue then .callvirt name
    else if id = w.unbox then .call getVariable
    else i) b b'
  first : b.code.get? w.loadField = some first
  second : b.code.get? w.loadObject = some second

theorem rewriteWindow_eq_ok {name getVariable : Token} {u : Unit}
    (hnodup : (w.loadField :: w.inner).Nodup)
    (h : rewriteWindow w name getVariable b = .ok u b') :
    ∃ first second, Rewritten w first second name getVariable b b' := by
  unfold rewriteWindow MethodBody.instruction at h
  cases hfirst : b.code.get? w.loadField with
  | none => simp only [hfirst] at h; cases h
  | some first =>
    cases hsecond : b.code.get? w.loadObject with
    | none => simp only [hfirst, hsecond] at h; cases h
    | some second =>
      simp only [hfirst, hsecond] at h
      cases h
      refine ⟨first, second, ?_, hfirst, hsecond⟩
      have hmapped := (((MethodBody.mapped_modifyAt b w.loadField fun _ => second).trans
        (MethodBody.mapped_modifyAt _ w.loadObject fun _ => first)).trans
        (MethodBody.mapped_modifyAt _ w.getValue fun _ => .callvirt name)).trans
        (MethodBody.mapped_modifyAt _ w.unbox fun _ => .call getVariable)
      refine hmapped.congr fun id i _ => ?_
      simp only [Window.inner, List.nodup_cons, List.mem_cons, List.not_mem_nil, or_false,
        not_or] at hnodup
      obtain ⟨⟨h₁₂, h₁₃, h₁₄⟩, ⟨h₂₃, h₂₄⟩, h₃₄, -⟩ := hnodup
      by_cases hid : id = w.loadField
      · simp only [hid, if_true, if_neg h₁₂, if_neg h₁₃, if_neg h₁₄]
      by_cases hid₂ : id = w.loadObject
      · simp only [hid₂, if_true, if_neg h₂₃, if_neg h₂₄, if_neg (Ne.symm h₁₂)]
      by_cases hid₃ : id = w.getValue
      · simp only [hid₃, if_true, if_neg h₃₄, if_neg (Ne.symm h₁₃), if_neg (Ne.symm h₂₃)]
      · simp only [hid, hid₂, hid₃, if_false]

theorem unboxedType?_eq_some {value : TypeSig} (h : unboxedType? b w = some value) {i : Instruction}
    (hi : b.code.get? w.unbox = some i) : i.operand = .type value := by
  unfold unboxedType? at h
  rw [hi, Option.map_some] at h
  split at h
  · rename_i heq
    cases h
    exact Option.some.inj heq
  · cases h

/-- What was routed, and through which tokens. -/
structure Route (getter : MethodRef) (d d' : Draft Unit) (w : Window) (value : TypeSig)
    (first second : Instruction) (name getVariable : Token) : Prop where
  found : Found d.references d.body w
  unboxes : ∀ i, d.body.code.get? w.unbox = some i → i.operand = .type value
  rewritten : Rewritten w first second name getVariable d.body d'.body
  grows : d.references.GrowsTo d'.references
  named : d'.references.FitsTokens → d'.references.method name = .ok getName
  gets : d'.references.FitsTokens →
    d'.references.method getVariable = .ok (getter.instantiate [value])

theorem route_eq_ok {d d' : Draft Unit} {a : Bool} (h : route getter methodName d = .ok a d') :
    a = true ∧ ∃ w value first second name getVariable,
      Route getter d d' w value first second name getVariable := by
  unfold route at h
  split at h
  · cases h
  · rename_i w hwindow
    split at h
    · cases h
    · rename_i value hvalue
      have hfound := found_of_findWindow hwindow
      obtain ⟨name, d₁, hname, h⟩ := Edit.bind_eq_ok h
      obtain ⟨getVariable, d₂, hget, h⟩ := Edit.bind_eq_ok h
      obtain ⟨_, d₃, hbody, h⟩ := Edit.bind_eq_ok h
      cases h
      obtain ⟨hsame₁, hgrows₁, hnamed⟩ := Draft.importMember_eq_ok hname
      obtain ⟨hsame₂, hgrows₂, hgets⟩ := Draft.importMember_eq_ok hget
      obtain ⟨body, hrewrite, rfl⟩ := Draft.onBody_eq_ok hbody
      rw [hsame₂, hsame₁] at hrewrite
      obtain ⟨first, second, hrewritten⟩ := rewriteWindow_eq_ok
        (Window.nodup_of_next? hfound.second hfound.third hfound.fourth) hrewrite
      refine ⟨rfl, w, value, first, second, name, getVariable, hfound,
        fun i => unboxedType?_eq_some hvalue, hrewritten, hgrows₁.trans hgrows₂, fun hfits => ?_,
        fun hfits => ReferenceTable.method_iff.mpr (hgets hfits)⟩
      exact hgrows₂.method_eq_ok
        (ReferenceTable.method_iff.mpr (hnamed (hgrows₂.fitsTokens hfits)))

/-! ## What is read, before and after -/

/-- A reflective read: where it is, what it loads and what it asks for, and the tokens that the name
of the field and its value are got with instead. -/
structure Reading where
  window : Window
  /-- The local that holds the description of the field. -/
  field : UInt16
  /-- The argument that holds the object. -/
  object : UInt16
  /-- Asks the description for the value. -/
  ask : Instruction
  /-- Unboxes the value. -/
  unboxing : Instruction
  /-- What the value is unboxed to. -/
  value : TypeSig
  /-- Answers the name of a field. -/
  name : Token
  /-- Answers the value of a field by its name. -/
  getVariable : Token

/-- A body has a reflective read, and another one is the same but for the read, which it does by
name. -/
structure Reading.Routes (r : Reading) (getter : MethodRef) (refs later : ReferenceTable)
    (b b' : MethodBody) : Prop where
  before : r.window.Holds b (.ldloc r.field) (.ldarg r.object) r.ask r.unboxing
  after : r.window.Holds b' (.ldarg r.object) (.ldloc r.field) (.callvirt r.name)
    (.call r.getVariable)
  asks : asksForValue refs r.ask = true
  unboxes : (r.unboxing.op = .unbox ∨ r.unboxing.op = .unboxAny) ∧
    r.unboxing.operand = .type r.value
  grows : refs.GrowsTo later
  named : later.method r.name = .ok getName
  gets : later.method r.getVariable = .ok (getter.instantiate [r.value])
  ids : b'.code.ids = b.code.ids
  locals : b'.locals = b.locals
  handlers : b'.handlers = b.handlers
  others : ∀ id, id ≠ r.window.loadField → id ∉ r.window.inner → b'.fetch? id = b.fetch? id

theorem eq_ldloc {i : Instruction} (hop : i.op = .ldloc)
    (hfits : i.operand.fits i.op.operandKind = true) : ∃ index, i.said = .ldloc index := by
  obtain ⟨op, operand, offset⟩ := i
  obtain rfl : op = .ldloc := hop
  cases operand with
  | «local» index => exact ⟨index, rfl⟩
  | _ => cases hfits

theorem eq_ldarg {i : Instruction} (hop : i.op = .ldarg)
    (hfits : i.operand.fits i.op.operandKind = true) : ∃ index, i.said = .ldarg index := by
  obtain ⟨op, operand, offset⟩ := i
  obtain rfl : op = .ldarg := hop
  cases operand with
  | argument index => exact ⟨index, rfl⟩
  | _ => cases hfits

theorem asksForValue_said {i : Instruction} (h : asksForValue refs i = true) :
    i.said.op = .callvirt ∧ asksForValue refs i.said = true := by
  have hop : i.op = .callvirt := by
    unfold asksForValue at h
    exact eq_of_beq (Bool.and_eq_true_iff.mp h).1
  rw [Instruction.said_of_namesMember (by rw [hop]; rfl)]
  exact ⟨hop, h⟩

theorem said_of_unbox {i : Instruction} (h : i.op = .unbox ∨ i.op = .unboxAny) :
    i.said = .of i.op i.operand := by
  obtain ⟨op, operand, offset⟩ := i
  rcases h with h | h <;> (obtain rfl := h; rfl)

/-- A window that was found holds a read. -/
theorem Found.holds (h : Found refs b w) (hfits : b.Fitting) {value : TypeSig}
    (hvalue : ∀ i, b.code.get? w.unbox = some i → i.operand = .type value) :
    ∃ field object ask unboxing, w.Holds b (.ldloc field) (.ldarg object) ask unboxing ∧
      asksForValue refs ask = true ∧
      (unboxing.op = .unbox ∨ unboxing.op = .unboxAny) ∧ unboxing.operand = .type value := by
  obtain ⟨i₁, hi₁, hop₁⟩ := h.loadField
  obtain ⟨i₂, hi₂, hop₂⟩ := h.loadObject
  obtain ⟨i₃, hi₃, hasks⟩ := h.getValue
  obtain ⟨i₄, hi₄, hop₄⟩ := h.unbox
  have fetch : ∀ {id i j}, b.code.get? id = some i → i.said = j → b.fetch? id = some j :=
    fun hi hsaid => Option.map_eq_some_iff.mpr ⟨_, hi, hsaid⟩
  obtain ⟨field, hfield⟩ := eq_ldloc hop₁ (hfits _ _ hi₁)
  obtain ⟨object, hobject⟩ := eq_ldarg hop₂ (hfits _ _ hi₂)
  obtain ⟨hop₃, hasks⟩ := asksForValue_said hasks
  refine ⟨field, object, i₃.said, .of i₄.op i₄.operand,
    ⟨fetch hi₁ hfield, fetch hi₂ hobject, fetch hi₃ rfl, fetch hi₄ (said_of_unbox hop₄), h.second,
      h.third, h.fourth, ?_⟩, hasks, hop₄, hvalue i₄ hi₄⟩
  intro i hi
  simp only [List.mem_cons, List.not_mem_nil, or_false] at hi
  rcases hi with rfl | rfl | rfl | rfl
  · exact .inl rfl
  · exact .inl rfl
  · exact .inr (by rw [hop₃]; rfl)
  · exact .inl (by rcases hop₄ with hop | hop <;> (rw [hop]; rfl))

/-- In a rewritten window the two loads have changed places, and two calls follow. Outside of it
everything is as it was. -/
theorem Rewritten.holds {i₁ i₂ i₃ i₄ first second : Instruction} {name getVariable : Token}
    (h : Rewritten w first second name getVariable b b') (hholds : w.Holds b i₁ i₂ i₃ i₄) :
    w.Holds b' i₂ i₁ (.callvirt name) (.call getVariable) ∧
      ∀ id, id ≠ w.loadField → id ∉ w.inner → b'.fetch? id = b.fetch? id := by
  have hnext : ∀ id, b'.code.next? id = b.code.next? id := InstructionList.next?_congr h.mapped.ids
  have hnodup := hholds.nodup
  simp only [Window.inner, List.nodup_cons, List.mem_cons, List.not_mem_nil, or_false, not_or]
    at hnodup
  obtain ⟨⟨h₁₂, h₁₃, h₁₄⟩, ⟨h₂₃, h₂₄⟩, h₃₄, -⟩ := hnodup
  obtain ⟨_, hi₁, rfl⟩ := exists_get?_of_fetch? hholds.loadField
  obtain ⟨_, hi₂, rfl⟩ := exists_get?_of_fetch? hholds.loadObject
  obtain ⟨_, hi₃, -⟩ := exists_get?_of_fetch? hholds.getValue
  obtain ⟨_, hi₄, -⟩ := exists_get?_of_fetch? hholds.unbox
  obtain rfl := Option.some.inj (hi₁.symm.trans h.first)
  obtain rfl := Option.some.inj (hi₂.symm.trans h.second)
  have fetch : ∀ {id i}, b'.code.get? id = some i → b'.fetch? id = some i.said :=
    fun hi => Option.map_eq_some_iff.mpr ⟨_, hi, rfl⟩
  refine ⟨⟨fetch ?_, fetch ?_, fetch (i := .callvirt name) ?_, fetch (i := .call getVariable) ?_,
    (hnext _).trans hholds.second, (hnext _).trans hholds.third, (hnext _).trans hholds.fourth,
    ?_⟩, ?_⟩
  · rw [h.mapped.get?_of hi₁, if_pos rfl]
  · rw [h.mapped.get?_of hi₂, if_neg (Ne.symm h₁₂), if_pos rfl]
  · rw [h.mapped.get?_of hi₃, if_neg (Ne.symm h₁₃), if_neg (Ne.symm h₂₃), if_pos rfl]
  · rw [h.mapped.get?_of hi₄, if_neg (Ne.symm h₁₄), if_neg (Ne.symm h₂₄), if_neg (Ne.symm h₃₄),
      if_pos rfl]
  · have hgoes := hholds.goesOn
    simp only [List.forall_mem_cons, List.not_mem_nil] at hgoes ⊢
    exact ⟨hgoes.2.1, hgoes.1, .inr rfl, .inr rfl, hgoes.2.2.2.2⟩
  · intro id hne hinner
    simp only [Window.inner, List.mem_cons, List.not_mem_nil, or_false, not_or] at hinner
    unfold MethodBody.fetch?
    rw [h.mapped.get?]
    simp only [if_neg hne, if_neg hinner.1, if_neg hinner.2.1, if_neg hinner.2.2, Option.map_id']

/-- The transaction leaves a body that reads by name what the body read by reflection. -/
theorem exists_routes {d d' : Draft Unit} {a : Bool}
    (h : Draft.transact returnType id (route getter methodName) d = .ok a d')
    (hfits : d'.references.FitsTokens) :
    ∃ r : Reading, r.Routes getter d.references d'.references d.body d'.body := by
  have hchanges : a = true := by
    obtain ⟨_, _, -, hroute, -⟩ := Draft.transact_eq_ok h
    exact (route_eq_ok hroute).1
  obtain ⟨expanded, d₁, hexpand, hsame, hroute, hsame', hreferences⟩ :=
    Draft.exists_change h hchanges
  rw [hreferences] at hfits ⊢
  obtain ⟨-, w, value, first, second, name, getVariable, hr⟩ := route_eq_ok hroute
  obtain ⟨hmap, hfitting, -⟩ := MethodBody.expand_eq_ok hexpand
  have hexpanded : expanded.Fitting :=
    hmap.fitting hfitting fun _ _ hi => Instruction.fits_expanded hi
  obtain ⟨field, object, ask, unboxing, hholds, hasks, hunboxes⟩ :=
    hr.found.holds hexpanded hr.unboxes
  obtain ⟨hholds', hothers⟩ := hr.rewritten.holds hholds
  refine ⟨⟨w, field, object, ask, unboxing, value, name, getVariable⟩,
    hholds.of_rephrases hsame.symm, hholds'.of_rephrases hsame', hasks, hunboxes, hr.grows,
    hr.named hfits, hr.gets hfits,
    hsame'.ids.trans (hr.rewritten.mapped.ids.trans hsame.ids),
    hsame'.locals.trans (hr.rewritten.mapped.locals.trans hsame.locals),
    hsame'.handlers.trans (hr.rewritten.mapped.handlers.trans hsame.handlers),
    fun id hne hinner => ?_⟩
  rw [fetch?_of_rephrases hsame', hothers id hne hinner, fetch?_of_rephrases hsame]

end CilWeave.ReflectiveGetter
