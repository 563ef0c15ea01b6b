import CilWeave.CommandLine.Arguments
import CilWeave.Run.Settings

/-
How a command is used, as text.

A help text says what the command does, how it is called, and then lists what can
follow it: commands, its argument, and its options by rank, with what each of them is
for in a second column.
-/

namespace CilWeave.CommandLine

namespace OptionSpec

/-- What options of the same rank are ordered by: the letter, a small one before a
capital one, or else the name. -/
def sortKey (o : OptionSpec) : String :=
  match o.letter with
  | some c => String.ofList [c.toLower, if c.isLower then '0' else '1']
  | none => o.name

def precedes (a b : OptionSpec) : Bool :=
  a.rank < b.rank || (a.rank == b.rank && a.sortKey ≤ b.sortKey)

/-- The option as it is given: its letter, its name, and what its value is called. -/
def written (o : OptionSpec) : String :=
  (match o.letter with
    | some c => "-" ++ String.singleton c ++ ", "
    | none => "    ")
  ++ "--" ++ o.name ++ (if o.value.isSome then " <" ++ o.valueName ++ ">" else "")

end OptionSpec

namespace CommandSpec

def call (spec : CommandSpec) : String :=
  if spec.commands.isEmpty then programSpec.name ++ " " ++ spec.name else spec.name

/-- How the command is called, with what can follow it. -/
def usageLine (spec : CommandSpec) : String :=
  "Usage: " ++ spec.call
    ++ (if spec.options.isEmpty then "" else " [OPTIONS]")
    ++ ((spec.operand.map fun (name, _) => " " ++ name).getD "")
    ++ (if spec.commands.isEmpty then "" else " <COMMAND>")

/-- A list of names with what they are for, below its heading; nothing if it is empty. -/
def listing (heading : String) (entries : List (String × String)) : List String :=
  if entries.isEmpty then []
  else
    let width := entries.foldl (fun width (name, _) => max width name.length) 0
    "" :: heading :: entries.map fun (name, about) =>
      "  " ++ name ++ String.ofList (List.replicate (width - name.length) ' ') ++ "  " ++ about

def helpLines (spec : CommandSpec) : List String :=
  [spec.about, "", spec.usageLine]
    ++ listing "Commands:" spec.commands
    ++ listing "Arguments:" spec.operand.toList
    ++ listing "Options:"
      ((spec.options.mergeSort OptionSpec.precedes).map fun o => (o.written, o.about))

end CommandSpec

def versionLine : String := programSpec.name ++ " " ++ Settings.version

end CilWeave.CommandLine
