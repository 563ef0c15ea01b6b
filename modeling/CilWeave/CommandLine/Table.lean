import CilWeave.Text.Blank
import CilWeave.Text.Columns
import CilWeave.Text.Lines

/-
Tables of text: columns as wide as their widest cell, with two spaces between
them, and no white space at the end of a line.
-/

namespace CilWeave.CommandLine

/-- The side of its column a cell is put to. -/
inductive Alignment where
  /-- The left side. -/
  | left
  /-- The right side. -/
  | right
  deriving DecidableEq, Repr, Inhabited

/-- A table. -/
structure Table where
  /-- The heads of the columns, and where their cells are put. -/
  columns : List (String × Alignment)
  /-- The rows, with as many cells as there are columns. -/
  rows : List (List String)
  deriving DecidableEq, Repr, Inhabited

namespace Table

def cellLines (cell : String) : List (List Char) := Pieces.split '\n' cell.toList

/-- The columns of the terminal that a cell takes. -/
def cellWidth (cell : String) : Nat :=
  (cellLines cell).foldl (fun width line => max width (Columns.of line)) 0

def widths (count : Nat) (rows : List (List String)) : List Nat :=
  (List.range count).map fun n =>
    rows.foldl (fun width row => max width (cellWidth (row[n]?.getD ""))) 0

/-- A line of a cell, put to one side of its column. -/
def fill (alignment : Alignment) (width : Nat) (line : List Char) : List Char :=
  let spaces := List.replicate (width - Columns.of line) ' '
  match alignment with
  | .left => line ++ spaces
  | .right => spaces ++ line

def rowLines (alignments : List Alignment) (widths : List Nat) (row : List String) :
    List String :=
  let cells := row.map cellLines
  let height := cells.foldl (fun height lines => max height lines.length) 0
  (List.range height).map fun n =>
    let filled := (alignments.zip (widths.zip cells)).map fun (alignment, width, lines) =>
      fill alignment width (lines[n]?.getD [])
    String.ofList (Blank.trimEnd (List.intercalate [' ', ' '] filled))

def lines (t : Table) : List String :=
  let rows := t.columns.map (·.1) :: t.rows
  rows.flatMap (rowLines (t.columns.map (·.2)) (widths t.columns.length rows))

end Table

end CilWeave.CommandLine
