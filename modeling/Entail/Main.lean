import Entail.CommandLine.Run

/-!
# The command line

Reads the files that a command names, and prints what the command comes to.
Every duration is measured by a clock that stands still at zero.
-/

namespace Entail.CommandLine

/-- How the arguments are to be given. -/
def usage : String :=
  "usage: entail [-h] [-v] [-c CONFIG] [--strict] [--debug DEBUG] [--color] method file"

/-- The content of a file, if it can be read. -/
def contentOf? (path : String) : IO (Option String) := do
  try
    return some (← IO.FS.readFile path)
  catch _ =>
    return none

/-- Prints what a command printed and logged, and returns its exit code. -/
def Record.show (record : Record) : IO UInt32 := do
  IO.print record.out
  for line in record.log do
    IO.eprintln line
  match record.ending with
  | .exit code => return code.toUInt32
  | .stopped error =>
    IO.eprintln error.message
    return 1

end Entail.CommandLine

open Entail.CommandLine in
/-- Runs the command that the arguments make up. -/
def main (args : List String) : IO UInt32 := do
  match Command.ofTexts args with
  | .error .help =>
    IO.println usage
    return 0
  | .error .misuse =>
    IO.eprintln usage
    return 2
  | .ok command =>
    let config ← match command.config? with
      | some path => contentOf? path
      | none => pure none
    (command.run config (← contentOf? command.file) 0).show
