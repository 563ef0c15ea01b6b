import CilWeave.Text.Radix
import CilWeave.Text.Showable

/-
Quoted text: between double quotes, with a backslash before a quote and a
backslash, short names for the usual control characters, and the code point of
every other character that cannot be shown.
-/

namespace CilWeave.Quoted

/-- A character as it stands between the quotes. -/
def escape (c : Char) : String :=
  if c.toNat == 0 then "\\0"
  else if c == '\t' then "\\t"
  else if c == '\r' then "\\r"
  else if c == '\n' then "\\n"
  else if c == '"' || c == '\\' then "\\" ++ String.singleton c
  else if Showable.isShowable c then String.singleton c
  else "\\u\x7b" ++ Radix.hex c.toNat ++ "\x7d"

def quote (text : String) : String := "\"" ++ String.join (text.toList.map escape) ++ "\""

end CilWeave.Quoted
