import CilWeave.Document.Reading
import CilWeave.Text.Radix

/-
Documents with the bits of their floats.

The decimal text of a float does not show which float it is to every reader. Here
each float constant of a document stands as its bits, in base sixteen.
-/

namespace CilWeave.Json

open Document

/-- The bits of a float of 32 or 64 bits, by the kind of the constant. The number is
taken as a float of 64 bits first, also where that is rounded once more. -/
def bitsText? (kind : String) (j : Json) : Option String :=
  match kind, float64 j with
  | "Float32", .ok bits =>
    some ("0x" ++ Radix.hexPadded 8 (Float.ofBits bits).toFloat32.toBits.toNat)
  | "Float64", .ok bits => some ("0x" ++ Radix.hexPadded 16 bits.toNat)
  | _, _ => none

mutual

/-- The document with the bits of its floats. -/
def withBits : Json → Json
  | .array items => .array (withBitsAll items)
  | .object members => .object (withBitsMembers members)
  | j => j

def withBitsAll : List Json → List Json
  | [] => []
  | j :: js => j.withBits :: withBitsAll js

/-- `withBits` on the value of each member; the value of a float is its bits. -/
def withBitsMembers : List (Option String × Json) → List (Option String × Json)
  | [] => []
  | (key, j) :: rest =>
    let value :=
      match bitsText? (key.getD "") j with
      | some text => .string text
      | none => j.withBits
    (key, value) :: withBitsMembers rest

end

end CilWeave.Json
