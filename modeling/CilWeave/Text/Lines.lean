import CilWeave.Text.Pieces

/-
Lines of a text. A line feed ends a line, with or without a carriage return in
front of it; what follows the last line feed is a line unless it is empty.
-/

namespace CilWeave.Lines

/-- The text without one carriage return at its end. -/
def dropReturn (cs : List Char) : List Char :=
  match cs.reverse with
  | '\r' :: rest => rest.reverse
  | _ => cs

/-- The text without the carriage returns at its end. -/
def dropReturns (cs : List Char) : List Char := (cs.reverse.dropWhile (· == '\r')).reverse

/-- The lines that pieces of a text are: every piece but the last was ended. -/
def ofPieces : List (List Char) → List (List Char)
  | [] => []
  | [last] => if last.isEmpty then [] else [last]
  | p :: ps => dropReturn p :: ofPieces ps

def of (cs : List Char) : List (List Char) := ofPieces (Pieces.split '\n' cs)

end CilWeave.Lines
