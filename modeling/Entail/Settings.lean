import Entail.Error
import Entail.Json.Reader
import Entail.Json.Writer

/-!
# Settings

Settings are kept in a file as a record of structured values; a setting that is
itself a record is a section.  Settings are dirty if they were changed since
they were written last.
-/

namespace Entail

open Json

/-- Settings and whether they belong to a file. -/
structure Settings where
  content : Value
  dirty : Bool
  hasFile : Bool

namespace Settings

/-- Settings that do not belong to a file. -/
def detached : Settings := ⟨.record [], false, false⟩

/-- The settings that belong to a file with the given text, or to a file that does not exist
yet. -/
def ofFile (text : Option String) : Except Error Settings :=
  match text with
  | none => .ok ⟨.record [], false, true⟩
  | some text => (Value.read text).map fun content => ⟨content, false, true⟩

/-- The entries of the settings. -/
def entries (s : Settings) : Except Error Entries :=
  match s.content with
  | .record entries => .ok entries
  | _ => .error .notASection

/-- The entry that the value at position `i` makes up, which has to consist of two parts. -/
def pairEntry (i : Nat) : Value → Except Error (RawText × Value)
  | .list [.text key, value] => .ok (key, value)
  | .list [_, _] => .error .unsuitable
  | .list items => .error (.notAPair i items.length)
  | .text ⟨[key, value]⟩ => .ok (⟨[key]⟩, .text ⟨[value]⟩)
  | .text text => .error (.notAPair i text.points.length)
  | .record [(key, _), (value, _)] => .ok (key, .text value)
  | .record entries => .error (.notAPair i entries.length)
  | _ => .error .unsuitable

/-- The entries that pairs make up, in order. -/
def entriesOfPairs (pairs : List Value) : Except Error Entries :=
  (pairs.zipIdx.mapM fun pair => pairEntry pair.2 pair.1).map fun entries => assignAll entries []

/-- The entries that a value makes up: those of a record, or those of a series of pairs. -/
def entriesOf : Value → Except Error Entries
  | .record entries => .ok entries
  | .list items => entriesOfPairs items
  | .text text => entriesOfPairs (text.points.map fun point => .text ⟨[point]⟩)
  | _ => .error .unsuitable

/-- The value of a key, or the given one if there is none. -/
def get (s : Settings) (key : RawText) (default : Value) : Except Error Value :=
  s.entries.map fun entries => (lookup key entries).getD default

/-- The value of a key in a section; a section that is missing or null has no values. -/
def getIn (s : Settings) (sectionKey key : RawText) : Except Error Value := do
  match (lookup sectionKey (← s.entries)).getD .null with
  | .null => return .null
  | .record inside => return (lookup key inside).getD .null
  | _ => throw .notASection

/-- The settings with the given entries, which are now dirty. -/
def withEntries (s : Settings) (entries : Entries) : Settings :=
  { s with content := .record entries, dirty := true }

/-- Gives the keys of the entries that a value makes up their values, in order. -/
def update (s : Settings) (changes : Value) : Except Error Settings := do
  let entries ← s.entries
  return s.withEntries (assignAll (← entriesOf changes) entries)

/-- Gives a key a value. -/
def set (s : Settings) (key : RawText) (value : Value) : Except Error Settings :=
  match s.content with
  | .record entries => .ok (s.withEntries (assign key value entries))
  | _ => .error .notAssignable

/-- Gives a key in a section a value; a section that is missing or null is made anew. -/
def setIn (s : Settings) (sectionKey key : RawText) (value : Value) : Except Error Settings := do
  let entries ← s.entries
  match (lookup sectionKey entries).getD .null with
  | .null => return s.withEntries (assign sectionKey (.record [(key, value)]) entries)
  | .record inside =>
    return s.withEntries (assign sectionKey (.record (assign key value inside)) entries)
  | _ => throw .notAssignable

/-- The written form of the settings, which are no longer dirty then. -/
def write (s : Settings) : Settings × String :=
  ({ s with dirty := false }, s.content.write)

/-- The text to be written to the file of the settings. -/
def writeFile (s : Settings) : Except Error (Settings × String) :=
  if s.hasFile then .ok s.write else .error .noFileName

end Settings

end Entail
