/-
Numbers in base sixteen, as tokens and flag sets are written.
-/

namespace CilWeave.Radix

/-- The number in lower-case digits of base sixteen, without leading zeros. -/
def hex (n : Nat) : String := String.ofList (Nat.toDigits 16 n)

/-- The number in base sixteen, filled with leading zeros up to `width` digits. -/
def hexPadded (width n : Nat) : String :=
  let digits := Nat.toDigits 16 n
  String.ofList (List.replicate (width - digits.length) '0' ++ digits)

/-- The value of one digit in base sixteen, of either case. -/
def hexDigit? (c : Char) : Option Nat :=
  if '0' ≤ c ∧ c ≤ '9' then some (c.toNat - 48)
  else if 'a' ≤ c ∧ c ≤ 'f' then some (c.toNat - 87)
  else if 'A' ≤ c ∧ c ≤ 'F' then some (c.toNat - 55)
  else none

/-- The value of a text of digits in base sixteen; an empty text has none. -/
def ofHex? : List Char → Option Nat
  | [] => none
  | cs => cs.foldlM (fun n c => (hexDigit? c).map (16 * n + ·)) 0

/-- The bytes a text gives, by two digits of base sixteen each. A rest that is no pair
of digits ends them. -/
def bytes : List Char → List UInt8
  | a :: b :: rest =>
    match ofHex? [a, b] with
    | some n => UInt8.ofNat n :: bytes rest
    | none => []
  | _ => []

end CilWeave.Radix
