import CilWeave.Error
import CilWeave.Json.Basic

/-
Reading values out of JSON trees.

A record is written as an object, and may also be given as the sequence of its
fields. Keys that are no field are skipped, a key may not be repeated, and a
field that may be absent is either optional or has a default. Members are read
in the order of the text, and the first fault is the one that is reported.
-/

namespace CilWeave.Document

/-- A value read from a document, or the first fault. -/
abbrev Read (α : Type) := Except DocumentFault α

/-- The document has not the expected shape. -/
def misshapen {α : Type} : Read α := .error .shape

def orMisshapen {α : Type} : Option α → Read α
  | some a => .ok a
  | none => misshapen

def int (j : Json) : Read Int := orMisshapen j.int?

def below (bound : Nat) (j : Json) : Read Nat := do
  let n ← int j
  if 0 ≤ n ∧ n < bound then .ok n.toNat else misshapen

def uint16 (j : Json) : Read UInt16 := (below UInt16.size j).map UInt16.ofNat

def uint32 (j : Json) : Read UInt32 := (below UInt32.size j).map UInt32.ofNat

def uint64 (j : Json) : Read UInt64 := (below UInt64.size j).map UInt64.ofNat

def within (bound : Nat) (j : Json) : Read Int := do
  let n ← int j
  if -(bound : Int) ≤ n ∧ n < bound then .ok n else misshapen

/-- A signed number of 8 bits. -/
def int8 (j : Json) : Read Int8 := (within 0x80 j).map Int8.ofInt

/-- A signed number of 32 bits. -/
def int32 (j : Json) : Read Int32 := (within 0x80000000 j).map Int32.ofInt

/-- A signed number of 64 bits. -/
def int64 (j : Json) : Read Int64 := (within 0x8000000000000000 j).map Int64.ofInt

/-- The bits of a float of 32 bits: an integer or a longer float is rounded. -/
def float32 : Json → Read UInt32
  | .number (.single bits) => .ok bits
  | .number (.double bits) => .ok (Float.ofBits bits).toFloat32.toBits
  | .number (.integer n) =>
    .ok (if 0 ≤ n then (UInt64.ofNat n.toNat).toFloat32 else (Int64.ofInt n).toFloat32).toBits
  | _ => misshapen

/-- The bits of a float of 64 bits: an integer is rounded. -/
def float64 : Json → Read UInt64
  | .number (.single bits) => .ok (Float32.ofBits bits).toFloat.toBits
  | .number (.double bits) => .ok bits
  | .number (.integer n) =>
    .ok (if 0 ≤ n then (UInt64.ofNat n.toNat).toFloat else (Int64.ofInt n).toFloat).toBits
  | _ => misshapen

def bool (j : Json) : Read Bool := orMisshapen j.bool?

def string (j : Json) : Read String := orMisshapen j.string?

def nullable {α : Type} (read : Json → Read α) : Json → Read (Option α)
  | .null => .ok none
  | j => (read j).map some

def list {α : Type} (read : Json → Read α) (j : Json) : Read (List α) := do
  (← orMisshapen j.items?).mapM read

/-- A field that must not have been read before. -/
def once {α : Type} (slot : Option α) (read : Json → Read α) (j : Json) : Read (Option α) :=
  match slot with
  | none => (read j).map some
  | some _ => misshapen

/-- The state after the members of an object. Only the keys in `fields` count. -/
def members {σ : Type} (fields : List String) (step : σ → String → Json → Read σ) :
    σ → List (Option String × Json) → Read σ
  | state, [] => .ok state
  | _, (none, _) :: _ => misshapen
  | state, (some key, j) :: rest =>
    if fields.contains key then
      match step state key j with
      | .ok state => members fields step state rest
      | .error fault => .error fault
    else if j.isWhole then members fields step state rest
    else misshapen

/-- The state after the fields of a record. In a sequence the last `absent` fields
may be missing. -/
def record {σ : Type} (fields : List String) (absent : Nat)
    (step : σ → String → Json → Read σ) (start : σ) : Json → Read σ
  | .object entries => members fields step start entries
  | .array items => do
    let state ← members fields step start (fields.zip items |>.map fun (key, j) => (some key, j))
    if fields.length ≤ items.length + absent ∧ items.length ≤ fields.length then .ok state
    else misshapen
  | _ => misshapen

/-- One of several forms, by name: a name alone, or a name with a value. -/
def form : Json → Read (String × Option Json)
  | .string name => .ok (name, none)
  | .object [(some name, j)] => .ok (name, some j)
  | _ => misshapen

/-- A form without a value. -/
def bare {α : Type} (a : α) : Option Json → Read α
  | none | some .null => .ok a
  | _ => misshapen

def withValue {α : Type} (read : Json → Read α) : Option Json → Read α
  | some j => read j
  | none => misshapen

/-- A form written with a value. -/
def tagged (name : String) (j : Json) : Json := .record [(name, j)]

/-- What a state holds after its last field. -/
def complete {α : Type} (state : Option α) : Read α := orMisshapen state

end CilWeave.Document
