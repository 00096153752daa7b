import Entail.CommandLine.Arguments
import Entail.InputFile
import Entail.Query
import Entail.Settings
import Entail.Text.Line

/-!
# Running commands

A command reads its settings file, if it names one that exists, and then its
input file.  An error that lies in what was told, asked or chosen is logged and
ends the command with exit code 1; any other error stops it short.
-/

namespace Entail.CommandLine

/-- How a command ends. -/
inductive Ending
  | exit (code : Nat)
  | stopped (error : Error)
  deriving DecidableEq, Repr

/-- What a command printed and logged, and how it ended. -/
structure Record where
  out : String
  log : List String
  ending : Ending
  deriving DecidableEq, Repr

/-- The end of a command by an error. -/
def Record.ofError (out : String) (error : Error) : Record :=
  if error.isReported then ⟨out, [error.message], .exit 1⟩ else ⟨out, [], .stopped error⟩

/-- The text of a file, with a line feed at the end of every line. -/
def fileText (content : String) : String :=
  String.ofList (Text.unifyNewlines content.toList)

namespace Command

/-- The settings that the options of a command make. -/
def flagSettings (command : Command) : Json.Entries :=
  let flag (key : Json.RawText) (isSet : Bool) : Json.Entries :=
    if isSet then [(key, .boolean true)] else []
  let levels : Json.Entries :=
    match command.options.debug with
    | some level => [("debug", .text level)]
    | none => []
  flag "strict" command.options.strict ++ levels ++ flag "color" command.options.color

/-- The query of a command, given its default settings and its input file. -/
def query (command : Command) (defaults : Json.Entries) (input : InputFile) :
    Except Error Query :=
  let settings : Json.Entries :=
    [("tell", .text input.tell), ("ask", .text input.ask), ("method", .text command.method)]
  Query.ofSettings defaults (if command.options.verbose then .boolean true else .null)
    (settings ++ command.flagSettings) none

/-- Runs a command at the given time, given the contents of its files. -/
def run (command : Command) (config input : Option String) (now : Float) : Record :=
  match Settings.ofFile (config.map fileText), input with
  | .error error, _ => .ofError "" error
  | .ok _, none => .ofError "" (.missingFile command.file)
  | .ok settings, some content =>
    let outcome := Outcome.attempt (do
      let input ← InputFile.ofText (fileText content)
      command.query (← Settings.entriesOf settings.content) input) fun query => query.run now
    match outcome with
    | ⟨out, .ok answer⟩ => ⟨out ++ answer ++ "\n", [], .exit 0⟩
    | ⟨out, .error error⟩ => .ofError out error

end Command

/-- Runs the command that arguments make up; `file` gives the contents of the files that exist. -/
def runTexts (texts : List String) (file : String → Option String) (now : Float) : Record :=
  match Command.ofTexts texts with
  | .ok command => command.run (command.config?.bind file) (file command.file) now
  | .error .misuse => ⟨"", [], .exit 2⟩
  | .error .help => ⟨"", [], .exit 0⟩

end Entail.CommandLine
