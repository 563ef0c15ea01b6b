import CilWeave.Decimal.Reading
import CilWeave.Json.Basic

/-
The tree of a JSON text, given as bytes.

Parsing always gives a tree: where the text stops being JSON the tree says
`broken`. A string may hold any bytes from space up; it is readable if they are
Unicode text and its escapes name characters. A container inside 127 others is
unreadable.
-/

namespace CilWeave.Json

/-- How deep containers may be nested. -/
def maxDepth : Nat := 127

/-- The text without leading white space. -/
def skipBlanks : List UInt8 → List UInt8
  | c :: rest => if c = 32 ∨ c = 10 ∨ c = 9 ∨ c = 13 then skipBlanks rest else c :: rest
  | [] => []

def isDigit (c : UInt8) : Bool := 48 ≤ c && c ≤ 57

/-- The value of a digit in base sixteen. -/
def hexValue? (c : UInt8) : Option Nat :=
  if isDigit c then some (c.toNat - 48)
  else if 97 ≤ c && c ≤ 102 then some (c.toNat - 87)
  else if 65 ≤ c && c ≤ 70 then some (c.toNat - 55)
  else none

/-- The value of four digits in base sixteen. -/
def hex4? (a b c d : UInt8) : Option Nat := do
  let a ← hexValue? a
  let b ← hexValue? b
  let c ← hexValue? c
  let d ← hexValue? d
  some (((a * 16 + b) * 16 + c) * 16 + d)

/-- Whether a code unit is the first half of a pair. -/
def isHighHalf (n : Nat) : Bool := 0xD800 ≤ n && n ≤ 0xDBFF

/-- Whether a code unit is the second half of a pair. -/
def isLowHalf (n : Nat) : Bool := 0xDC00 ≤ n && n ≤ 0xDFFF

/-- The character a pair of code units stands for. -/
def joinHalves (high low : Nat) : Nat := 0x10000 + (high - 0xD800) * 0x400 + (low - 0xDC00)

/-- The bytes of a character, the last first. -/
def bytesReversed (n : Nat) : List UInt8 :=
  (String.singleton (Char.ofNat n)).toUTF8.toList.reverse

/-- The byte a one-letter escape stands for. -/
def escaped? : UInt8 → Option UInt8
  | 34 => some 34
  | 92 => some 92
  | 47 => some 47
  | 98 => some 8
  | 102 => some 12
  | 110 => some 10
  | 114 => some 13
  | 116 => some 9
  | _ => none

/-- The rest of a string after its opening quote: its bytes, whether all escapes
name characters, and the text after the closing quote. `high` is the first half of
a pair whose second half has to come next. -/
def stringRest : List UInt8 → (bytes : List UInt8) → (high : Option Nat) → (valid : Bool) →
    Option (List UInt8 × Bool × List UInt8)
  | [], _, _, _ => none
  | 34 :: rest, bytes, high, valid => some (bytes.reverse, valid && high.isNone, rest)
  | 92 :: 117 :: a :: b :: c :: d :: rest, bytes, high, valid =>
    match hex4? a b c d with
    | none => none
    | some n =>
      if isLowHalf n then
        match high with
        | some first => stringRest rest (bytesReversed (joinHalves first n) ++ bytes) none valid
        | none => stringRest rest bytes none false
      else if isHighHalf n then stringRest rest bytes (some n) (valid && high.isNone)
      else stringRest rest (bytesReversed n ++ bytes) none (valid && high.isNone)
  | 92 :: c :: rest, bytes, high, valid =>
    match escaped? c with
    | some byte => stringRest rest (byte :: bytes) none (valid && high.isNone)
    | none => none
  | c :: rest, bytes, high, valid =>
    if c < 32 then none else stringRest rest (c :: bytes) none (valid && high.isNone)

/-- A string after its opening quote: its text, if it is one, and the rest. -/
def stringAfterQuote (text : List UInt8) : Option (Option String × List UInt8) :=
  (stringRest text [] none true).map fun (bytes, valid, rest) =>
    (if valid then String.fromUTF8? ⟨bytes.toArray⟩ else none, rest)

/-- The digits of a text: their value with `n` before them, how many they are, and
the rest. -/
def digits (n count : Nat) : List UInt8 → Nat × Nat × List UInt8
  | c :: rest =>
    if isDigit c then digits (n * 10 + (c.toNat - 48)) (count + 1) rest else (n, count, c :: rest)
  | [] => (n, count, [])

/-- Digits taken into a significand as long as it stays below 2^64: the
significand, how many digits went into it, how many did not, and the rest. -/
def takeDigits (significand taken dropped : Nat) : List UInt8 → Nat × Nat × Nat × List UInt8
  | c :: rest =>
    if isDigit c then
      let next := significand * 10 + (c.toNat - 48)
      if dropped = 0 ∧ next < UInt64.size then takeDigits next (taken + 1) 0 rest
      else takeDigits significand taken (dropped + 1) rest
    else (significand, taken, dropped, c :: rest)
  | [] => (significand, taken, dropped, [])

def float (negative : Bool) (significand : Nat) (exponent : Int) : Json :=
  match Decimal.toFloat? negative (UInt64.ofNat significand) exponent with
  | some value => .number (.double value.toBits)
  | none => .unreadable

/-- The exponent part of a numeral, if there is one. -/
def exponent? : List UInt8 → Option (Option Int × List UInt8)
  | c :: rest =>
    if c = 101 ∨ c = 69 then
      let (negative, rest) := match rest with
        | 43 :: rest => (false, rest)
        | 45 :: rest => (true, rest)
        | _ => (false, rest)
      match digits 0 0 rest with
      | (_, 0, _) => none
      | (n, _, rest) => some (some (if negative then -(n : Int) else n), rest)
    else some (none, c :: rest)
  | [] => some (none, [])

/-- The fraction part of a numeral, taken into its significand: the significand,
the exponent it then has, whether there is a fraction, and the rest. -/
def fraction? (significand : Nat) (dropped : Nat) :
    List UInt8 → Option (Nat × Int × Bool × List UInt8)
  | 46 :: rest =>
    match takeDigits significand 0 0 rest with
    | (_, 0, 0, _) => none
    | (next, taken, _, rest) => some (next, (dropped : Int) - taken, true, rest)
  | text => some (significand, dropped, false, text)

/-- A numeral after its sign, and the text after it. -/
def numeral (negative : Bool) (text : List UInt8) : Json × Option (List UInt8) :=
  let leadingZero := match text with
    | 48 :: c :: _ => isDigit c
    | _ => false
  match takeDigits 0 0 0 text with
  | (_, 0, _, _) => (.broken, none)
  | (significand, _, dropped, rest) =>
    if leadingZero then (.broken, none)
    else
      match fraction? significand dropped rest with
      | none => (.broken, none)
      | some (significand, exponent, hasFraction, rest) =>
        match exponent? rest with
        | none => (.broken, none)
        | some (some power, rest) => (float negative significand (exponent + power), some rest)
        | some (none, rest) =>
          let integral := !hasFraction && dropped == 0
          if integral && !negative then (.number (.integer significand), some rest)
          else if integral && 0 < significand && 2 * significand ≤ UInt64.size then
            (.number (.integer (-significand)), some rest)
          else (float negative significand exponent, some rest)

def word (letters : List UInt8) (value : Json) (text : List UInt8) :
    Json × Option (List UInt8) :=
  if letters.isPrefixOf text then (value, some (text.drop letters.length)) else (.broken, none)

mutual

/-- The value at the start of a text, inside `depth` containers, and the text
after it; there is none after a fault. Takes at most `fuel` nested steps. -/
def value : (fuel : Nat) → (depth : Nat) → List UInt8 → Json × Option (List UInt8)
  | 0, _, _ => (.broken, none)
  | fuel + 1, depth, text =>
    match skipBlanks text with
    | 110 :: rest => word [117, 108, 108] .null rest
    | 116 :: rest => word [114, 117, 101] (.bool true) rest
    | 102 :: rest => word [97, 108, 115, 101] (.bool false) rest
    | 45 :: rest => numeral true rest
    | 34 :: rest =>
      match stringAfterQuote rest with
      | some (some s, rest) => (.string s, some rest)
      | some (none, rest) => (.unreadable, some rest)
      | none => (.broken, none)
    | 91 :: rest =>
      match skipBlanks rest with
      | 93 :: rest => (if depth < maxDepth then .array [] else .unreadable, some rest)
      | _ =>
        let (items, rest) := itemsAfter fuel (depth + 1) rest []
        (if depth < maxDepth ∨ rest.isNone then .array items else .unreadable, rest)
    | 123 :: rest =>
      match skipBlanks rest with
      | 125 :: rest => (if depth < maxDepth then .object [] else .unreadable, some rest)
      | _ =>
        let (members, rest) := membersAfter fuel (depth + 1) rest []
        (if depth < maxDepth ∨ rest.isNone then .object members else .unreadable, rest)
    | c :: rest => if isDigit c then numeral false (c :: rest) else (.broken, none)
    | [] => (.broken, none)

/-- The items of a sequence from the next one on, after those seen. -/
def itemsAfter : (fuel : Nat) → (depth : Nat) → List UInt8 → (seen : List Json) →
    List Json × Option (List UInt8)
  | 0, _, _, seen => ((.broken :: seen).reverse, none)
  | fuel + 1, depth, text, seen =>
    match value fuel depth text with
    | (item, none) => ((item :: seen).reverse, none)
    | (item, some rest) =>
      match skipBlanks rest with
      | 44 :: rest => itemsAfter fuel depth rest (item :: seen)
      | 93 :: rest => ((item :: seen).reverse, some rest)
      | _ => ((.broken :: item :: seen).reverse, none)

/-- The members of an object from the next one on, after those seen. -/
def membersAfter : (fuel : Nat) → (depth : Nat) → List UInt8 →
    (seen : List (Option String × Json)) →
    List (Option String × Json) × Option (List UInt8)
  | 0, _, _, seen => (((none, .broken) :: seen).reverse, none)
  | fuel + 1, depth, text, seen =>
    match skipBlanks text with
    | 34 :: rest =>
      match stringAfterQuote rest with
      | none => (((none, .broken) :: seen).reverse, none)
      | some (key, rest) =>
        match skipBlanks rest with
        | 58 :: rest =>
          match value fuel depth rest with
          | (j, none) => (((key, j) :: seen).reverse, none)
          | (j, some rest) =>
            match skipBlanks rest with
            | 44 :: rest => membersAfter fuel depth rest ((key, j) :: seen)
            | 125 :: rest => (((key, j) :: seen).reverse, some rest)
            | _ => (((none, .broken) :: (key, j) :: seen).reverse, none)
        | _ => (((key, .broken) :: seen).reverse, none)
    | _ => (((none, .broken) :: seen).reverse, none)

end

/-- The document of a text, and whether nothing but white space follows it. -/
def parse (text : List UInt8) : Json × Bool :=
  match value (2 * text.length + 2) 0 text with
  | (j, some rest) => (j, (skipBlanks rest).isEmpty)
  | (j, none) => (j, false)

/-- The document of a text that is JSON to its end and can be read everywhere. -/
def read? (text : List UInt8) : Option Json :=
  match parse text with
  | (j, true) => if j.isReadable then some j else none
  | (_, false) => none

end CilWeave.Json
