import CilWeave.Text.Blank
import CilWeave.Text.Pieces
import CilWeave.Text.Radix

/-
Sets of flags and their written form.

A set is a word of bits. It is written as the names of its flags, separated by
vertical bars, with the bits that no name covers as one number in base sixteen.
A name may stand for several bits or for none, and names may overlap: a name is
written if all its bits are in the set and one of them was not written before.
-/

namespace CilWeave

/-- The names of a kind of flag set, in the order in which they are written. -/
structure FlagNames where
  /-- Each name with its bits. -/
  names : List (String × Nat)
  /-- How many bits the word has. -/
  width : Nat

namespace FlagNames

def bitsOf? (flags : FlagNames) (name : String) : Option Nat :=
  (flags.names.find? (·.1 == name)).map (·.2)

/-- The names to write for `bits`, of which `rest` were not written yet, and the
bits that remain. -/
def covering (bits : Nat) : List (String × Nat) → (rest : Nat) → List String × Nat
  | [], rest => ([], rest)
  | (name, flag) :: names, rest =>
    if flag &&& bits = flag ∧ rest &&& flag ≠ 0 then
      let (more, left) := covering bits names (rest &&& (rest ^^^ flag))
      (name :: more, left)
    else covering bits names rest

/-- The written form of a set. -/
def write (flags : FlagNames) (bits : Nat) : String :=
  let (names, left) := covering bits flags.names bits
  " | ".intercalate (names ++ if left = 0 then [] else ["0x" ++ Radix.hex left])

/-- The bits of one written flag. -/
def readOne? (flags : FlagNames) (text : List Char) : Option Nat :=
  match text with
  | '0' :: 'x' :: digits =>
    let digits := match digits with
      | '+' :: rest => rest
      | _ => digits
    (Radix.ofHex? digits).filter (· < Nat.pow 2 flags.width)
  | _ => flags.bitsOf? (String.ofList text)

/-- The set a text describes. White space around a flag does not count, a blank
text is the empty set, and bits without a name are kept. -/
def read? (flags : FlagNames) (text : String) : Option Nat :=
  let text := Blank.trim text.toList
  if text.isEmpty then some 0
  else (Pieces.split '|' text).foldlM
    (fun bits piece =>
      let piece := Blank.trim piece
      if piece.isEmpty then none else (flags.readOne? piece).map (bits ||| ·)) 0

end FlagNames

end CilWeave
