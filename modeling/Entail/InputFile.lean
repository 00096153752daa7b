import Entail.Error
import Entail.Text.Blank
import Entail.Text.LetterCase
import Entail.Text.Line

/-!
# Input files

An input file has a section of lines to tell and a section of lines to ask,
each behind a line with its name.  Lines before the sections, and empty ones,
do not count; the lines of a section are put together without blanks at their
ends.
-/

namespace Entail

/-- What an input file tells and asks. -/
structure InputFile where
  tell : String
  ask : String
  deriving DecidableEq, Repr

namespace InputFile

/-- The lines of the sections found so far; a section that was not found has none. -/
structure Sections where
  tell : Option (List String)
  ask : Option (List String)
  deriving DecidableEq, Repr

/-- Reads one more line; once the name of the asking section was seen, all lines belong to it. -/
def Sections.read (found : Sections) (line : String) : Sections :=
  if line.isEmpty then found
  else if Text.lower line = "tell" then { found with tell := some (found.tell.getD []) }
  else if Text.lower line = "ask" then { found with ask := some (found.ask.getD []) }
  else
    match found.ask, found.tell with
    | some lines, _ => { found with ask := some (lines ++ [line]) }
    | none, some lines => { found with tell := some (lines ++ [line]) }
    | none, none => found

/-- Reads an input file. -/
def ofText (content : String) : Except Error InputFile :=
  let lines := (Text.lines (Text.trimBlanks content.toList)).map fun line =>
    String.ofList (Text.trimBlanks line)
  match lines.foldl Sections.read ⟨none, none⟩ with
  | ⟨some tell, some ask⟩ => .ok ⟨String.join tell, String.join ask⟩
  | _ => .error .unsectionedInput

end InputFile

end Entail
