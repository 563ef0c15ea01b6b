/-
The shortest decimal numeral of a binary float.

A float stands for all numbers that round to it. Of the decimals with the fewest
digits among these, the numeral is the one nearest to the float, and the even one
if two are equally near. For each number of digits it is enough to look at the two
decimals next to the float, because one of them is among these numbers whenever
any decimal of that length is.
-/

namespace CilWeave.Decimal

/-- A finite positive float as `mantissa * 2^exponent`. -/
structure Binary where
  /-- The mantissa. -/
  mantissa : Nat
  /-- The exponent of two. -/
  exponent : Int
  /-- Whether the next smaller float is only half as far as the next larger one. -/
  atPower : Bool
  deriving DecidableEq, Repr, Inhabited

/-- The magnitude of a float from its exponent and fraction fields, where the
fraction has `width` bits and the least exponent is `least`. -/
def Binary.ofFields (width : Nat) (least : Int) (field fraction : Nat) : Binary :=
  if field = 0 then ⟨fraction, least, false⟩
  else ⟨fraction + Nat.pow 2 width, least + (field - 1 : Nat), fraction = 0 ∧ 1 < field⟩

def Binary.ofDouble (bits : UInt64) : Binary :=
  .ofFields 52 (-1074) ((bits >>> 52).toNat % 0x800) (bits &&& 0xFFFFFFFFFFFFF).toNat

def Binary.ofSingle (bits : UInt32) : Binary :=
  .ofFields 23 (-149) ((bits >>> 23).toNat % 0x100) (bits &&& 0x7FFFFF).toNat

/-- The numbers that round to a float, as quotients with one denominator. -/
structure Interval where
  /-- The lower end. -/
  low : Nat
  /-- The float itself. -/
  value : Nat
  /-- The upper end. -/
  high : Nat
  /-- The denominator. -/
  denominator : Nat
  /-- Whether the ends belong to the interval. -/
  closed : Bool
  deriving Repr, Inhabited

/-- The numbers that round to `b`: half a step to either side, and the ends
exactly if the mantissa is even. -/
def Binary.interval (b : Binary) : Interval :=
  let down := if b.atPower then 1 else 2
  let up := Nat.pow 2 (b.exponent - 2).toNat
  ⟨(4 * b.mantissa - down) * up, 4 * b.mantissa * up, (4 * b.mantissa + 2) * up,
    Nat.pow 2 (2 - b.exponent).toNat, b.mantissa % 2 = 0⟩

/-- Digits and the exponent of ten they are multiplied by. -/
structure Numeral where
  /-- The digits as a number. -/
  digits : Nat
  /-- The exponent of ten. -/
  exponent : Int
  deriving DecidableEq, Repr, Inhabited

/-- Whether `digits * 10^exponent` lies in the interval. -/
def Interval.contains (i : Interval) (n : Numeral) : Bool :=
  let x := n.digits * Nat.pow 10 n.exponent.toNat * i.denominator
  let scale := Nat.pow 10 (-n.exponent).toNat
  if i.closed then i.low * scale ≤ x && x ≤ i.high * scale
  else i.low * scale < x && x < i.high * scale

/-- The decimal below the float on the grid of `10^exponent`, and whether the next
decimal above it is preferred: it is if it is nearer, or as near and even. -/
def Interval.below (i : Interval) (exponent : Int) : Nat × Bool :=
  let x := i.value * Nat.pow 10 (-exponent).toNat
  let unit := i.denominator * Nat.pow 10 exponent.toNat
  let n := x / unit
  let rest := 2 * (x % unit)
  (n, unit < rest || (rest == unit && n % 2 == 1))

/-- The decimal on the grid of `10^exponent` that lies in the interval, the preferred
one of two. -/
def Interval.onGrid? (i : Interval) (exponent : Int) : Option Numeral :=
  let (n, up) := i.below exponent
  let first := ⟨if up then n + 1 else n, exponent⟩
  let second := ⟨if up then n else n + 1, exponent⟩
  if i.contains first then some first else if i.contains second then some second else none

/-- How many digits stand before the point in the float; for a float below one, how
many zeros follow the point, as a negative number. Looks at most `steps` places
after the point. -/
def Interval.places (i : Interval) (steps : Nat) : Int :=
  let whole := i.value / i.denominator
  if whole = 0 then
    let rec zeros : Nat → Nat → Int
      | 0, _ => 0
      | steps + 1, x => if i.denominator ≤ x * 10 then 0 else zeros steps (x * 10) - 1
    zeros steps i.value
  else (Nat.toDigits 10 whole).length

/-- The first decimal found on the grids from `exponent` down. -/
def Interval.shortestFrom (i : Interval) : (grids : Nat) → (exponent : Int) → Numeral
  | 0, exponent => ⟨(i.below exponent).1, exponent⟩
  | grids + 1, exponent =>
    match i.onGrid? exponent with
    | some n => n
    | none => i.shortestFrom grids (exponent - 1)

/-- The numeral without trailing zeros, of which there are at most `count`. -/
def Numeral.stripped : (count : Nat) → Numeral → Numeral
  | 0, n => n
  | count + 1, n =>
    if n.digits % 10 = 0 then Numeral.stripped count ⟨n.digits / 10, n.exponent + 1⟩ else n

/-- The shortest numeral of a positive float. Seventeen digits are enough for every
float of at most 64 bits. -/
def Binary.shortest (b : Binary) : Numeral :=
  let i := b.interval
  Numeral.stripped 400 (i.shortestFrom 18 (i.places 400))

/-- How a numeral is written. -/
structure Layout where
  /-- The most digits before the point without an exponent. -/
  most : Int
  /-- The most zeros after the point without an exponent. -/
  zeros : Int

/-- How a float of 64 bits is written. -/
def doubleLayout : Layout := ⟨16, 4⟩

/-- How a float of 32 bits is written. -/
def singleLayout : Layout := ⟨13, 5⟩

def zeros (n : Nat) : String := String.ofList (List.replicate n '0')

/-- A numeral as text: with a point as long as that takes few zeros, else with a
signed exponent. There is always a digit on both sides of a point. -/
def Numeral.write (layout : Layout) (n : Numeral) : String :=
  let digits := toString n.digits
  let before := digits.length + n.exponent
  if 0 ≤ n.exponent ∧ before ≤ layout.most then digits ++ zeros n.exponent.toNat ++ ".0"
  else if 0 < before ∧ before ≤ layout.most then
    String.ofList (digits.toList.take before.toNat) ++ "."
      ++ String.ofList (digits.toList.drop before.toNat)
  else if -layout.zeros ≤ before ∧ before ≤ 0 then "0." ++ zeros (-before).toNat ++ digits
  else
    let power := (if 0 < before then "e+" else "e") ++ toString (before - 1)
    match digits.toList with
    | [d] => String.singleton d ++ power
    | d :: rest => String.singleton d ++ "." ++ String.ofList rest ++ power
    | [] => power

def Binary.write (layout : Layout) (b : Binary) : String :=
  if b.mantissa = 0 then "0.0" else b.shortest.write layout

/-- A finite float of 64 bits as text. -/
def writeDouble (bits : UInt64) : String :=
  (if bits < 0x8000000000000000 then "" else "-") ++ (Binary.ofDouble bits).write doubleLayout

/-- A finite float of 32 bits as text. -/
def writeSingle (bits : UInt32) : String :=
  (if bits < 0x80000000 then "" else "-") ++ (Binary.ofSingle bits).write singleLayout

end CilWeave.Decimal
