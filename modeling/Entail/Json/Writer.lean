import Entail.Decimal.Digits
import Entail.Json.Value
import Entail.Text.Hexadecimal

/-!
# Writing structured values

Items and entries stand on lines of their own, indented by four blanks for
each level.  Texts are written in plain characters: any other character is
escaped by its 16-bit units, and so is a surrogate that stands alone.
-/

namespace Entail.Json

/-- A 16-bit unit that is escaped by its number. -/
def escapeUnit (unit : Nat) : List Char :=
  '\\' :: 'u' :: Text.hexDigits 4 unit

/-- A code point as it is written in a text. -/
def escapeText : CodePoint → List Char
  | .surrogate unit => escapeUnit unit
  | .char c =>
    if c = '"' then ['\\', '"']
    else if c = '\\' then ['\\', '\\']
    else if c = '\n' then ['\\', 'n']
    else if c = '\r' then ['\\', 'r']
    else if c = '\t' then ['\\', 't']
    else if c.toNat = 0x08 then ['\\', 'b']
    else if c.toNat = 0x0c then ['\\', 'f']
    else if 0x20 ≤ c.toNat ∧ c.toNat < 0x7f then [c]
    else (unitsOf c).flatMap escapeUnit

/-- A text in double quotes. -/
def writeText (text : RawText) : String :=
  String.ofList ('"' :: text.points.flatMap escapeText ++ ['"'])

def writeFloat (x : Float) : String :=
  if x.isNaN then "NaN"
  else if x.isInf then (if x < 0 then "-Infinity" else "Infinity")
  else Decimal.exactText x

/-- A new line at the given level. -/
def newLine (level : Nat) : String :=
  String.ofList ('\n' :: List.replicate (4 * level) ' ')

mutual

/-- The written form of a value at the given level. -/
def Value.writeAt (level : Nat) : Value → String
  | .null => "null"
  | .boolean b => if b then "true" else "false"
  | .integer n => toString n
  | .float x => writeFloat x
  | .text s => writeText s
  | .list [] => "[]"
  | .list (item :: rest) =>
    "[" ++ newLine (level + 1) ++ item.writeAt (level + 1) ++ writeItems (level + 1) rest ++
      newLine level ++ "]"
  | .record [] => "\x7b\x7d"
  | .record ((key, value) :: rest) =>
    "\x7b" ++ newLine (level + 1) ++ writeText key ++ ": " ++ value.writeAt (level + 1) ++
      writeEntries (level + 1) rest ++ newLine level ++ "\x7d"

/-- The further items of a list. -/
def writeItems (level : Nat) : List Value → String
  | [] => ""
  | item :: rest => "," ++ newLine level ++ item.writeAt level ++ writeItems level rest

/-- The further entries of a record. -/
def writeEntries (level : Nat) : Entries → String
  | [] => ""
  | (key, value) :: rest =>
    "," ++ newLine level ++ writeText key ++ ": " ++ value.writeAt level ++
      writeEntries level rest

end

/-- The written form of a value. -/
def Value.write (value : Value) : String :=
  value.writeAt 0

end Entail.Json
