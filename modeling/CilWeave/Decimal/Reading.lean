/-
The float a decimal numeral stands for.

The digits of a numeral are taken as a natural number below 2^64; digits that no
longer fit there only move the point. That number is rounded to a float and then
multiplied or divided by a power of ten, which itself is the nearest float. A
power beyond 10^308 has no float, so a very small numeral is divided in steps,
and a numeral that grows beyond every float has no value.
-/

namespace CilWeave.Decimal

/-- The nearest float to a power of ten. -/
def pow10 (n : Nat) : Float := Float.ofScientific 1 false n

/-- The float of `significand * 10^exponent`, if there is one. A division by
10^308 is done at most `steps` times; three leave nothing of any significand. -/
def scale : (steps : Nat) → (value : Float) → (exponent : Int) → Option Float
  | steps, value, exponent =>
    if exponent.natAbs ≤ 308 then
      if 0 ≤ exponent then
        let scaled := value * pow10 exponent.natAbs
        if scaled.isInf then none else some scaled
      else some (value / pow10 exponent.natAbs)
    else if value == 0.0 then some value
    else if 0 ≤ exponent then none
    else
      match steps with
      | 0 => some 0.0
      | steps + 1 => scale steps (value / pow10 308) (exponent + 308)

def toFloat? (negative : Bool) (significand : UInt64) (exponent : Int) : Option Float :=
  (scale 4 significand.toFloat exponent).map fun value => if negative then -value else value

end CilWeave.Decimal
