import CilWeave.Pass.ReflectiveGetter
import CilWeave.Proofs.Execution.Paths

/-
The window of a reflective read.

`Window.Holds` says which four instructions stand in a window, and `Window.Undisturbed` that nothing
refers to the ones behind the first. Then a run is in the window only on its way from the first
instruction to the last one, and two bodies that differ in their windows alone run alike outside of
them as soon as the four instructions of the one make of the stack and the memory what those of the
other make of them (`Window.Agree.steps`).
-/

namespace CilWeave.ReflectiveGetter.Window

open Execution

variable {w : Window} {b b' : MethodBody} {i₁ i₂ i₃ i₄ j₁ j₂ j₃ j₄ : Instruction}

/-- The instructions of a window behind the first one. -/
def inner (w : Window) : List InstrId := [w.loadObject, w.getValue, w.unbox]

/-- No branch and no handler refers to an instruction behind the first one. -/
def Undisturbed (w : Window) (b : MethodBody) : Prop := ∀ id ∈ w.inner, ¬ b.RefersTo id

/-- Four instructions stand in a window, one behind the other, and each goes on to the next. -/
structure Holds (w : Window) (b : MethodBody) (i₁ i₂ i₃ i₄ : Instruction) : Prop where
  loadField : b.fetch? w.loadField = some i₁
  loadObject : b.fetch? w.loadObject = some i₂
  getValue : b.fetch? w.getValue = some i₃
  unbox : b.fetch? w.unbox = some i₄
  second : b.code.next? w.loadField = some w.loadObject
  third : b.code.next? w.loadObject = some w.getValue
  fourth : b.code.next? w.getValue = some w.unbox
  goesOn : ∀ i ∈ [i₁, i₂, i₃, i₄], i.op.flow = .sequential ∨ i.op.flow = .call

theorem Holds.of_rephrases (h : w.Holds b i₁ i₂ i₃ i₄) (hsame : b'.Rephrases b) :
    w.Holds b' i₁ i₂ i₃ i₄ where
  loadField := (fetch?_of_rephrases hsame _).trans h.loadField
  loadObject := (fetch?_of_rephrases hsame _).trans h.loadObject
  getValue := (fetch?_of_rephrases hsame _).trans h.getValue
  unbox := (fetch?_of_rephrases hsame _).trans h.unbox
  second := (InstructionList.next?_congr hsame.ids _).trans h.second
  third := (InstructionList.next?_congr hsame.ids _).trans h.third
  fourth := (InstructionList.next?_congr hsame.ids _).trans h.fourth
  goesOn := h.goesOn

theorem nodup_of_next? {l : InstructionList} (h : l.next? w.loadField = some w.loadObject)
    (h' : l.next? w.loadObject = some w.getValue) (h'' : l.next? w.getValue = some w.unbox) :
    (w.loadField :: w.inner).Nodup := by
  obtain ⟨p, hp₁, hp₂⟩ := InstructionList.next?_eq_some.mp h
  obtain ⟨q, hq₁, hq₂⟩ := InstructionList.next?_eq_some.mp h'
  obtain ⟨r, hr₁, hr₂⟩ := InstructionList.next?_eq_some.mp h''
  obtain rfl := InstructionList.getElem?_inj_of_nodup l.nodup_ids hq₁ hp₂
  obtain rfl := InstructionList.getElem?_inj_of_nodup l.nodup_ids hr₁ hq₂
  have hids : w.loadField :: w.inner = (l.ids.drop p).take 4 := by
    refine List.ext_getElem? fun n => ?_
    match n with
    | 0 => simp [hp₁]
    | 1 => simp [inner, hp₂]
    | 2 => simp [inner, hq₂]
    | 3 => simp [inner, hr₂]
    | n + 4 => exact (List.getElem?_take_eq_none (Nat.le_add_left 4 n)).symm
  rw [hids]
  exact l.nodup_ids.sublist ((List.take_sublist 4 _).trans (List.drop_sublist p _))

/-- Two bodies differ in their windows alone. -/
structure Agree (w : Window) (b b' : MethodBody) : Prop where
  outside : ∀ id, id ≠ w.loadField → id ∉ w.inner → AgreesAt b b' id
  behind : b'.code.next? w.unbox = b.code.next? w.unbox

theorem Agree.symm (h : w.Agree b b') : w.Agree b' b where
  outside id hne hid := (h.outside id hne hid).symm
  behind := h.behind.symm

namespace Holds

variable {x y : InstrId}

theorem stands (h : w.Holds b i₁ i₂ i₃ i₄) (hnext : b.code.next? w.unbox = some y) :
    Stands b w.loadField [i₁, i₂, i₃, i₄] y :=
  .cons h.loadField h.second (.cons h.loadObject h.third (.cons h.getValue h.fourth
    (.cons h.unbox hnext (.nil y))))

theorem eq_of_next? (h : w.Holds b i₁ i₂ i₃ i₄) (hnext : b.code.next? x = some y)
    (hy : y ∈ w.inner) : x = w.loadField ∨ x = w.loadObject ∨ x = w.getValue := by
  simp only [inner, List.mem_cons, List.not_mem_nil, or_false] at hy
  rcases hy with rfl | rfl | rfl
  · exact .inl (InstructionList.next?_inj hnext h.second)
  · exact .inr (.inl (InstructionList.next?_inj hnext h.third))
  · exact .inr (.inr (InstructionList.next?_inj hnext h.fourth))

theorem nodup (h : w.Holds b i₁ i₂ i₃ i₄) : (w.loadField :: w.inner).Nodup :=
  nodup_of_next? h.second h.third h.fourth

theorem not_inner_behind (h : w.Holds b i₁ i₂ i₃ i₄) (hnext : b.code.next? w.unbox = some y) :
    y ∉ w.inner := by
  have hnodup := h.nodup
  simp only [inner, List.nodup_cons, List.mem_cons, List.not_mem_nil, or_false, not_or] at hnodup
  obtain ⟨⟨-, -, hfirst⟩, ⟨-, hsecond⟩, hthird, -⟩ := hnodup
  intro hy
  rcases h.eq_of_next? hnext hy with heq | heq | heq
  · exact hfirst heq.symm
  · exact hsecond heq.symm
  · exact hthird heq.symm

end Holds

variable {δ ρ : Type} {world : World δ ρ} {refs : ReferenceTable} {returnType : TypeSig}

/-- From a state outside of the window, or at its first instruction, a run has come to another one,
for which it has gone through a part of the window at most. -/
inductive Within (w : Window) (world : World δ ρ) (refs : ReferenceTable) (returnType : TypeSig)
    (i₁ i₂ i₃ : Instruction) : State δ ρ → State δ ρ → Prop where
  | outside {s : State δ ρ} : s.here ∉ w.inner → Within w world refs returnType i₁ i₂ i₃ s s
  | second {stack stack₁ : List (Value δ)} {m m₁ : Memory δ ρ} {resume : List InstrId} :
      Does world refs returnType i₁ stack m stack₁ m₁ →
      Within w world refs returnType i₁ i₂ i₃ ⟨w.loadField, stack, m, resume⟩
        ⟨w.loadObject, stack₁, m₁, resume⟩
  | third {stack stack₁ stack₂ : List (Value δ)} {m m₁ m₂ : Memory δ ρ} {resume : List InstrId} :
      Does world refs returnType i₁ stack m stack₁ m₁ →
      Does world refs returnType i₂ stack₁ m₁ stack₂ m₂ →
      Within w world refs returnType i₁ i₂ i₃ ⟨w.loadField, stack, m, resume⟩
        ⟨w.getValue, stack₂, m₂, resume⟩
  | fourth {stack stack₁ stack₂ stack₃ : List (Value δ)} {m m₁ m₂ m₃ : Memory δ ρ}
      {resume : List InstrId} : Does world refs returnType i₁ stack m stack₁ m₁ →
      Does world refs returnType i₂ stack₁ m₁ stack₂ m₂ →
      Does world refs returnType i₃ stack₂ m₂ stack₃ m₃ →
      Within w world refs returnType i₁ i₂ i₃ ⟨w.loadField, stack, m, resume⟩
        ⟨w.unbox, stack₃, m₃, resume⟩

theorem Holds.not_inner_of_starts (h : w.Holds b i₁ i₂ i₃ i₄) {arguments : List (Value δ)}
    {heap : Heap δ ρ} {s : State δ ρ} (hstart : Starts world b arguments heap s) :
    s.here ∉ w.inner := by
  obtain ⟨id, hid, rfl⟩ := hstart
  intro hinner
  simp only [inner, List.mem_cons, List.not_mem_nil, or_false] at hinner
  rcases hinner with rfl | rfl | rfl
  · exact InstructionList.first?_ne_of_next? h.second hid
  · exact InstructionList.first?_ne_of_next? h.third hid
  · exact InstructionList.first?_ne_of_next? h.fourth hid

/-- A run comes to the third instruction of an undisturbed window by way of the first two. -/
theorem Holds.came (h : w.Holds b i₁ i₂ i₃ i₄) (hquiet : w.Undisturbed b)
    {arguments stack : List (Value δ)} {heap : Heap δ ρ} {start : State δ ρ} {m : Memory δ ρ}
    {resume : List InstrId} (hstart : Starts world b arguments heap start)
    (hsteps : Steps world b refs returnType start ⟨w.getValue, stack, m, resume⟩) :
    ∃ stack₀ m₀ stack₁ m₁,
      Steps world b refs returnType start ⟨w.loadField, stack₀, m₀, resume⟩ ∧
      Does world refs returnType i₁ stack₀ m₀ stack₁ m₁ ∧
      Does world refs returnType i₂ stack₁ m₁ stack m := by
  obtain ⟨stack₁, m₁, hsteps₁, hsecond⟩ := hsteps.came_from hstart h.loadObject
    (h.goesOn i₂ (by simp)) h.third (hquiet _ (by simp [inner]))
  obtain ⟨stack₀, m₀, hsteps₀, hfirst⟩ := hsteps₁.came_from hstart h.loadField
    (h.goesOn i₁ (by simp)) h.second (hquiet _ (by simp [inner]))
  exact ⟨stack₀, m₀, stack₁, m₁, hsteps₀, hfirst, hsecond⟩

section Exchange

variable (hagree : w.Agree b b') (h : w.Holds b i₁ i₂ i₃ i₄) (h' : w.Holds b' j₁ j₂ j₃ j₄)
  (hquiet : w.Undisturbed b)
  (halike : ∀ stack m stack' m',
    DoesEach world refs returnType [i₁, i₂, i₃, i₄] stack m stack' m' →
      DoesEach world refs returnType [j₁, j₂, j₃, j₄] stack m stack' m')
include hagree h h' hquiet halike

/-- One step of the one body keeps to what the other one can do: outside of the window this takes
the same step, and it goes through the window when the first one has come to its end. -/
theorem Agree.step {start s s₁ : State δ ρ} (hstep : Step world b refs returnType s s₁)
    (hwithin : Within w world refs returnType i₁ i₂ i₃ start s)
    (hresume : ∀ x ∈ s.resume, b.RefersTo x) :
    ∃ start₁, Steps world b' refs returnType start start₁ ∧
      Within w world refs returnType i₁ i₂ i₃ start₁ s₁ := by
  have flow := h.goesOn
  simp only [List.mem_cons, List.not_mem_nil, or_false, forall_eq_or_imp, forall_eq] at flow
  obtain ⟨flow₁, flow₂, flow₃, flow₄⟩ := flow
  cases hwithin with
  | outside hs =>
    by_cases hfirst : start.here = w.loadField
    · obtain ⟨here, stack, m, resume⟩ := start
      obtain rfl : here = w.loadField := hfirst
      obtain ⟨id, stack₁, m₁, hdoes, hnext, rfl⟩ := hstep.goes_on h.loadField flow₁
      rw [h.second] at hnext
      cases hnext
      exact ⟨_, .refl _, .second hdoes⟩
    · have hs₁ : s₁.here ∉ w.inner := by
        intro hmem
        rcases hstep.came.1 with hnext | hrefers | hresumed
        · rcases h.eq_of_next? hnext hmem with heq | heq | heq
          · exact hfirst heq
          · exact hs (by simp [inner, heq])
          · exact hs (by simp [inner, heq])
        · exact hquiet _ hmem hrefers
        · exact hquiet _ hmem (hresume _ hresumed)
      exact ⟨s₁, .one (hstep.of_agrees (hagree.outside _ hfirst hs)), .outside hs₁⟩
  | second hdoes₁ =>
    obtain ⟨id, stack₂, m₂, hdoes₂, hnext, rfl⟩ := hstep.goes_on h.loadObject flow₂
    rw [h.third] at hnext
    cases hnext
    exact ⟨_, .refl _, .third hdoes₁ hdoes₂⟩
  | third hdoes₁ hdoes₂ =>
    obtain ⟨id, stack₃, m₃, hdoes₃, hnext, rfl⟩ := hstep.goes_on h.getValue flow₃
    rw [h.fourth] at hnext
    cases hnext
    exact ⟨_, .refl _, .fourth hdoes₁ hdoes₂ hdoes₃⟩
  | @fourth _ _ _ _ _ _ _ _ resume hdoes₁ hdoes₂ hdoes₃ =>
    obtain ⟨id, stack₄, m₄, hdoes₄, hnext, rfl⟩ := hstep.goes_on h.unbox flow₄
    have hall := halike _ _ _ _
      (.cons hdoes₁ (.cons hdoes₂ (.cons hdoes₃ (.cons hdoes₄ (.nil stack₄ m₄)))))
    exact ⟨_, (h'.stands (hagree.behind.trans hnext)).steps resume hall,
      .outside (h.not_inner_behind hnext)⟩

/-- A run of the one body, from outside of the window to outside of it, is one of the other. -/
theorem Agree.steps {s s' : State δ ρ} (hsteps : Steps world b refs returnType s s')
    (hs' : s'.here ∉ w.inner) : ∀ {start : State δ ρ},
    Within w world refs returnType i₁ i₂ i₃ start s →
    (∀ x ∈ s.resume, b.RefersTo x) → Steps world b' refs returnType start s' := by
  induction hsteps with
  | refl s =>
    intro start hwithin _
    cases hwithin with
    | outside => exact .refl s
    | second | third | fourth => exact absurd (by simp [inner]) hs'
  | head hstep _ ih =>
    intro start hwithin hresume
    obtain ⟨start₁, hsteps₁, hwithin₁⟩ :=
      hagree.step h h' hquiet halike hstep hwithin hresume
    exact hsteps₁.trans (ih hs' hwithin₁ fun x hx => (hstep.came.2 x hx).elim id (hresume x))

end Exchange

end CilWeave.ReflectiveGetter.Window
