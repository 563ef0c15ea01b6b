import CilWeave.Document.Reading

/-
What reading makes of what was written.

`Reads r a fine` says of the outcome of a reader that it is `a` if `fine` holds, and a fault if
not. Each way to put readers together has its rule: a sequence is read if all its elements are, a
value that may be missing is read if it is there, and a record is read field by field
(`record_cons`, `Reads.record_cons`). A value that is always read back has an equation instead.
-/

namespace CilWeave.Document

variable {α β σ : Type}

/-- The outcome of a reader is `a` under a condition, and a fault without it. -/
structure Reads (r : Read α) (a : α) (fine : Prop) : Prop where
  ok : fine → r = .ok a
  fails : ¬ fine → ∃ fault, r = .error fault

namespace Reads

variable {r : Read α} {a : α} {fine : Prop}

theorem of_eq (h : r = .ok a) : Reads r a True where
  ok _ := h
  fails hnot := absurd trivial hnot

theorem of_eq_error {fault : DocumentFault} (h : r = .error fault) : Reads r a False where
  ok := False.elim
  fails _ := ⟨fault, h⟩

theorem of_step {r' : Read α} (h : r = r') (hnext : Reads r' a fine) : Reads r a fine :=
  h ▸ hnext

theorem congr {other : Prop} (h : Reads r a fine) (hiff : fine ↔ other) : Reads r a other :=
  propext hiff ▸ h

theorem ok_iff (h : Reads r a fine) : r = .ok a ↔ fine := by
  refine ⟨fun hok => Classical.byContradiction fun hnot => ?_, h.ok⟩
  obtain ⟨fault, hfault⟩ := h.fails hnot
  rw [hfault] at hok
  cases hok

theorem error_iff (h : Reads r a fine) : (∃ fault, r = .error fault) ↔ ¬ fine := by
  refine ⟨?_, h.fails⟩
  rintro ⟨fault, hfault⟩ hfine
  rw [h.ok hfine] at hfault
  cases hfault

theorem bind {f : α → Read β} {b : β} (h : Reads r a fine) (hf : f a = .ok b) :
    Reads (r >>= f) b fine where
  ok hfine := by
    rw [h.ok hfine]
    exact hf
  fails hnot := by
    obtain ⟨fault, hfault⟩ := h.fails hnot
    exact ⟨fault, by rw [hfault]; rfl⟩

theorem map (f : α → β) (h : Reads r a fine) : Reads (r.map f) (f a) fine where
  ok hfine := by
    rw [h.ok hfine]
    rfl
  fails hnot := by
    obtain ⟨fault, hfault⟩ := h.fails hnot
    exact ⟨fault, by rw [hfault]; rfl⟩

theorem form {ofJson : Json → Read β} {read : Json → Read α} {make : α → β} {name : String}
    {j : Json} (hread : Reads (read j) a fine)
    (hform : ∀ j, ofJson (tagged name j) = (read j).map make) :
    Reads (ofJson (tagged name j)) (make a) fine :=
  of_step (hform j) (hread.map make)

/-- A sequence is read if each of its elements is. -/
theorem list {read : Json → Read α} {write : α → Json} {fine : α → Prop} :
    ∀ {items : List α}, (∀ a ∈ items, Reads (read (write a)) a (fine a)) →
      Reads (Document.list read (.ofList write items)) items (∀ a ∈ items, fine a)
  | [], _ => (of_eq rfl).congr (by simp)
  | a :: items, h => by
    have hhead := h a List.mem_cons_self
    have htail := list fun b hb => h b (List.mem_cons_of_mem a hb)
    have hstep : Document.list read (.ofList write (a :: items)) =
        read (write a) >>= fun a => (Document.list read (.ofList write items)).map (a :: ·) := by
      show (write a :: items.map write).mapM read = _
      rw [List.mapM_cons]
      rfl
    rw [hstep]
    constructor
    · intro hfine
      rw [hhead.ok (hfine a List.mem_cons_self),
        htail.ok fun b hb => hfine b (List.mem_cons_of_mem a hb)]
      rfl
    · intro hnot
      by_cases hfirst : fine a
      · have hrest : ¬ ∀ b ∈ items, fine b :=
          fun hrest => hnot (List.forall_mem_cons.mpr ⟨hfirst, hrest⟩)
        obtain ⟨fault, hfault⟩ := htail.fails hrest
        exact ⟨fault, by rw [hhead.ok hfirst, hfault]; rfl⟩
      · obtain ⟨fault, hfault⟩ := hhead.fails hfirst
        exact ⟨fault, by rw [hfault]; rfl⟩

/-- A value that may be missing is written as `null` only if it is. -/
theorem nullable {read : Json → Read α} {write : α → Json} {fine : α → Prop} {value : Option α}
    (hnull : ∀ a, write a ≠ .null) (h : ∀ a ∈ value, Reads (read (write a)) a (fine a)) :
    Reads (Document.nullable read (.ofOption write value)) value (∀ a ∈ value, fine a) := by
  cases value with
  | none => exact (of_eq rfl).congr (by simp)
  | some a =>
    have hread : Document.nullable read (write a) = (read (write a)).map some := by
      unfold Document.nullable
      split
      · rename_i heq
        exact absurd heq (hnull a)
      · rfl
    show Reads (Document.nullable read (write a)) (some a) _
    rw [hread]
    exact ((h a rfl).map some).congr (by simp)

end Reads

/-! ## Records -/

section Record

variable {fields : List String} {absent : Nat} {step : σ → String → Json → Read σ} {key : String}
  {read : Json → Read α} {put : Option α → σ} {j : Json} {a : α} {rest : List (String × Json)}
  {state : σ}

theorem record_eq (hkey : fields.contains key = true)
    (hstep : step state key = fun j => (once none read j).map put) :
    record fields absent step state (.record ((key, j) :: rest)) =
      read j >>= fun a => record fields absent step (put (some a)) (.record rest) := by
  show members fields step state ((some key, j) :: _) =
    read j >>= fun a => members fields step (put (some a)) _
  have hfirst : step state key j = (read j).map fun a => put (some a) := by
    rw [hstep]
    show ((read j).map some).map put = _
    cases read j <;> rfl
  rw [members, if_pos hkey, hfirst]
  cases read j <;> rfl

/-- A field that is read back. -/
theorem record_cons (hkey : fields.contains key = true)
    (hstep : step state key = fun j => (once none read j).map put) (hread : read j = .ok a) :
    record fields absent step state (.record ((key, j) :: rest)) =
      record fields absent step (put (some a)) (.record rest) := by
  rw [record_eq hkey hstep, hread]
  rfl

/-- A field that is read back under a condition, in front of fields that are read back. -/
theorem Reads.record_cons {fine : Prop} {last : σ} (hkey : fields.contains key = true)
    (hstep : step state key = fun j => (once none read j).map put) (hread : Reads (read j) a fine)
    (hrest : record fields absent step (put (some a)) (.record rest) = .ok last) :
    Reads (record fields absent step state (.record ((key, j) :: rest))) last fine :=
  of_step (record_eq hkey hstep) (hread.bind hrest)

end Record

/-! ## Values that are always read back -/

theorem list_ofList {read : Json → Read α} {write : α → Json}
    (h : ∀ a, read (write a) = .ok a) (items : List α) :
    list read (.ofList write items) = .ok items :=
  (Reads.list fun a _ => .of_eq (h a)).ok fun _ _ => trivial

theorem nullable_ofOption {read : Json → Read α} {write : α → Json}
    (hnull : ∀ a, write a ≠ .null) (h : ∀ a, read (write a) = .ok a) (value : Option α) :
    nullable read (.ofOption write value) = .ok value :=
  (Reads.nullable hnull fun a _ => .of_eq (h a)).ok fun _ _ => trivial

theorem below_nat {bound n : Nat} (h : n < bound) : below bound (.nat n) = .ok n := by
  show (if 0 ≤ (n : Int) ∧ (n : Int) < bound then Except.ok (n : Int).toNat else misshapen) = _
  rw [if_pos ⟨Int.natCast_nonneg n, Int.ofNat_lt.mpr h⟩, Int.toNat_natCast]

theorem within_int {bound : Nat} {n : Int} (hleast : -(bound : Int) ≤ n) (hmost : n < bound) :
    within bound (.int n) = .ok n :=
  if_pos ⟨hleast, hmost⟩

@[simp] theorem uint16_nat (n : UInt16) : uint16 (.nat n.toNat) = .ok n := by
  rw [uint16, below_nat n.toNat_lt]
  exact congrArg Except.ok n.ofNat_toNat

@[simp] theorem uint32_nat (n : UInt32) : uint32 (.nat n.toNat) = .ok n := by
  rw [uint32, below_nat n.toNat_lt]
  exact congrArg Except.ok n.ofNat_toNat

@[simp] theorem uint64_nat (n : UInt64) : uint64 (.nat n.toNat) = .ok n := by
  rw [uint64, below_nat n.toNat_lt]
  exact congrArg Except.ok n.ofNat_toNat

@[simp] theorem int8_int (n : Int8) : int8 (.int n.toInt) = .ok n := by
  rw [int8, within_int n.le_toInt n.toInt_lt]
  exact congrArg Except.ok n.ofInt_toInt

@[simp] theorem int32_int (n : Int32) : int32 (.int n.toInt) = .ok n := by
  rw [int32, within_int n.le_toInt n.toInt_lt]
  exact congrArg Except.ok n.ofInt_toInt

@[simp] theorem int64_int (n : Int64) : int64 (.int n.toInt) = .ok n := by
  rw [int64, within_int n.le_toInt n.toInt_lt]
  exact congrArg Except.ok n.ofInt_toInt

@[simp] theorem bool_bool (b : Bool) : bool (.bool b) = .ok b := rfl

@[simp] theorem string_string (s : String) : string (.string s) = .ok s := rfl

end CilWeave.Document
