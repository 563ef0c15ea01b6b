import CilWeave.Decimal.Shortest
import CilWeave.Json.Basic
import CilWeave.Text.Radix

/-
The text of a JSON tree, on one line or with one value a line.

Only quotes, backslashes and control characters are escaped. What is not whole
in a tree is written as `null`.
-/

namespace CilWeave.Json

/-- A character inside a string. -/
def escape (c : Char) : String :=
  if c = '"' then "\\\""
  else if c = '\\' then "\\\\"
  else if c = '\n' then "\\n"
  else if c = '\r' then "\\r"
  else if c = '\t' then "\\t"
  else if c.toNat = 8 then "\\b"
  else if c.toNat = 12 then "\\f"
  else if c.toNat < 32 then "\\u" ++ Radix.hexPadded 4 c.toNat
  else String.singleton c

def quoted (s : String) : String :=
  "\"" ++ s.toList.foldl (fun out c => out ++ escape c) "" ++ "\""

def numberText : Number → String
  | .integer n => toString n
  | .double bits => Decimal.writeDouble bits
  | .single bits => Decimal.writeSingle bits

/-- A key; a key that is no text is written as an empty one. -/
def keyText (key : Option String) : String := quoted (key.getD "")

mutual

/-- A text with the document on one line behind it. -/
def compactOnto (out : String) : Json → String
  | .null | .unreadable | .broken => out ++ "null"
  | .bool b => out ++ if b then "true" else "false"
  | .number n => out ++ numberText n
  | .string s => out ++ quoted s
  | .array items => compactItems (out ++ "[") "" items ++ "]"
  | .object members => compactMembers (out ++ "\x7b") "" members ++ "\x7d"

/-- A text with the items on one line behind it, the first of them after `lead`. -/
def compactItems (out lead : String) : List Json → String
  | [] => out
  | j :: js => compactItems (compactOnto (out ++ lead) j) "," js

/-- A text with the members on one line behind it, the first of them after `lead`. -/
def compactMembers (out lead : String) : List (Option String × Json) → String
  | [] => out
  | (key, j) :: rest =>
    compactMembers (compactOnto (out ++ lead ++ keyText key ++ ":") j) "," rest

end

def compact (j : Json) : String := compactOnto "" j

/-- A new line with this indentation. -/
def newline (indent : Nat) : String := "\n" ++ String.ofList (List.replicate indent ' ')

mutual

/-- A text with the document, one value a line, behind it, inside this indentation. -/
def prettyOnto (indent : Nat) (out : String) : Json → String
  | .array [] => out ++ "[]"
  | .array items => prettyItems (indent + 2) (out ++ "[") "" items ++ newline indent ++ "]"
  | .object [] => out ++ "\x7b\x7d"
  | .object members =>
    prettyMembers (indent + 2) (out ++ "\x7b") "" members ++ newline indent ++ "\x7d"
  | .null | .unreadable | .broken => out ++ "null"
  | .bool b => out ++ if b then "true" else "false"
  | .number n => out ++ numberText n
  | .string s => out ++ quoted s

/-- A text with the items behind it, each on its line, the first of them after `lead`. -/
def prettyItems (indent : Nat) (out lead : String) : List Json → String
  | [] => out
  | j :: js => prettyItems indent (prettyOnto indent (out ++ lead ++ newline indent) j) "," js

/-- A text with the members behind it, each on its line, the first of them after `lead`. -/
def prettyMembers (indent : Nat) (out lead : String) : List (Option String × Json) → String
  | [] => out
  | (key, j) :: rest =>
    prettyMembers indent
      (prettyOnto indent (out ++ lead ++ newline indent ++ keyText key ++ ": ") j) "," rest

end

/-- The document with one value a line. -/
def pretty (j : Json) : String := prettyOnto 0 "" j

end CilWeave.Json
