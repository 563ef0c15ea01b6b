import CilWeave.Error
import CilWeave.Record.Basic
import CilWeave.Text.Lines

/-
The text of a patch record.

A line `X` carries the fingerprint, a line `T` opens the block of a type, a line
`M` names a method of it and a line `E` ends the block. A text that is not such a
record, or is one for another fingerprint, is no record; so is one whose block is
empty. But a block that is never ended is an error, because whatever wrote the
text ends its blocks.
-/

namespace CilWeave

namespace PatchRecord

def entryLines (entry : String × List String) : List String :=
  ["T " ++ entry.1] ++ entry.2.map ("M " ++ ·) ++ ["E"]

def lines (r : PatchRecord) : List String :=
  ["X " ++ r.fingerprint] ++ r.entries.flatMap entryLines

/-- The text of a record; every line of it is ended. -/
def toText (r : PatchRecord) : String := "\n".intercalate r.lines ++ "\n"

end PatchRecord

/-- What a line of a record says. -/
inductive RecordLine where
  /-- The record is for this fingerprint. -/
  | fingerprint (text : String)
  /-- The block of a type begins. -/
  | type (name : String)
  /-- A method of the type was changed. -/
  | method (name : String)
  /-- The block ends. -/
  | terminator
  /-- Nothing. -/
  | blank
  /-- Nothing that belongs into a record. -/
  | unknown
  deriving DecidableEq, Repr, Inhabited

/-- What a line without carriage returns at its end says. -/
def RecordLine.ofTrimmed : List Char → RecordLine
  | 'X' :: ' ' :: text => .fingerprint (String.ofList text)
  | 'T' :: ' ' :: name => .type (String.ofList name)
  | 'M' :: ' ' :: name => .method (String.ofList name)
  | ['E'] => .terminator
  | 'E' :: ' ' :: _ => .terminator
  | [] => .blank
  | _ => .unknown

/-- What a line says; carriage returns at its end do not count. -/
def RecordLine.ofChars (line : List Char) : RecordLine := ofTrimmed (Lines.dropReturns line)

/-- Why lines are not read any further. -/
inductive RecordFault where
  /-- They are no valid record. -/
  | stale
  /-- The block of a type is open where it must have ended. -/
  | unterminated (line : Nat) (type : String)
  deriving DecidableEq, Repr, Inhabited

/-- A record that is being read. -/
structure RecordReader where
  /-- What was read, apart from the open block. -/
  record : PatchRecord
  /-- Whether the fingerprint was confirmed. -/
  confirmed : Bool
  /-- The type of the open block and its methods so far. -/
  block : Option (String × List String)
  deriving DecidableEq, Repr, Inhabited

namespace RecordReader

/-- Before the first line. -/
def start (fingerprint : String) : RecordReader := ⟨.empty fingerprint, false, none⟩

/-- Takes in line `number`. -/
def step (r : RecordReader) (number : Nat) : RecordLine → Except RecordFault RecordReader
  | .fingerprint text =>
    if text = r.record.fingerprint then .ok { r with confirmed := true } else .error .stale
  | .type name =>
    match r.block with
    | some (type, _) => .error (.unterminated number type)
    | none => .ok { r with block := some (name, []) }
  | .method name =>
    match r.block with
    | some (type, names) => .ok { r with block := some (type, names ++ [name]) }
    | none => .error .stale
  | .terminator =>
    match r.block with
    | some (_, []) => .error .stale
    | some (type, names) => .ok { r with record := r.record.addAll type names, block := none }
    | none => .error .stale
  | .blank => .ok r
  | .unknown => .error .stale

/-- Ends after line `number`. -/
def finish (r : RecordReader) (number : Nat) : Except RecordFault PatchRecord :=
  match r.block with
  | some (type, _) => .error (.unterminated number type)
  | none => if r.confirmed then .ok r.record else .error .stale

/-- Takes in the lines after line `number`, and ends. -/
def run (r : RecordReader) (number : Nat) : List RecordLine → Except RecordFault PatchRecord
  | [] => r.finish number
  | line :: rest =>
    match r.step (number + 1) line with
    | .ok r => r.run (number + 1) rest
    | .error fault => .error fault

end RecordReader

namespace PatchRecord

/-- Reads the text of a record for a fingerprint; `source` is where the text is from. -/
def ofText (text source fingerprint : String) : Except Error (Option PatchRecord) :=
  let lines := (Lines.of text.toList).map RecordLine.ofChars
  match (RecordReader.start fingerprint).run 0 lines with
  | .ok record => .ok (some record)
  | .error .stale => .ok none
  | .error (.unterminated line type) =>
    .error (.cacheMalformed source line ("block of " ++ type ++ " is missing its terminator"))

/-- The fingerprint the first line of a text states. -/
def statedFingerprint? (text : String) : Option String :=
  match Lines.of text.toList with
  | ('X' :: ' ' :: stated) :: _ => some (String.ofList stated)
  | _ => none

end PatchRecord

end CilWeave
