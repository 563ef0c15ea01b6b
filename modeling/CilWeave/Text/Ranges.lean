/-
Sets of characters, given as ranges of code points in order.
-/

namespace CilWeave

/-- A set of characters, as the first and last code points of its ranges. -/
abbrev CharRanges := List (Nat × Nat)

def CharRanges.contains (ranges : CharRanges) (c : Char) : Bool :=
  ranges.any fun (first, last) => first ≤ c.toNat && c.toNat ≤ last

end CilWeave
