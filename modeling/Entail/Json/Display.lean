import Entail.Decimal.Digits
import Entail.Json.Value
import Entail.Text.Hexadecimal
import Entail.Text.Printable

/-!
# Displaying structured values

The form in which a value is shown to a reader, all of it on one line.  Inside
of a list or a record, texts stand in quotes, and characters that show nothing
are escaped by their code points.
-/

namespace Entail.Json

/-- The text of a number with a fraction. -/
def floatText (x : Float) : String :=
  if x.isNaN then "nan"
  else if x.isInf then (if x < 0 then "-inf" else "inf")
  else Decimal.exactText x

/-- A code point that is escaped by its number, with as many digits as it needs of two, four or
eight. -/
def escapePoint (n : Nat) : List Char :=
  if n < 0x100 then '\\' :: 'x' :: Text.hexDigits 2 n
  else if n < 0x10000 then '\\' :: 'u' :: Text.hexDigits 4 n
  else '\\' :: 'U' :: Text.hexDigits 8 n

/-- A code point of a text that stands between the given quotation marks. -/
def quotePoint (mark : Char) : CodePoint → List Char
  | .surrogate unit => escapePoint unit
  | .char c =>
    if c = mark ∨ c = '\\' then ['\\', c]
    else if c = '\n' then ['\\', 'n']
    else if c = '\r' then ['\\', 'r']
    else if c = '\t' then ['\\', 't']
    else if Text.isPrintable c then [c]
    else escapePoint c.toNat

/-- A text in single quotes, or in double ones if only single ones occur in it. -/
def quoted (text : RawText) : String :=
  let mark :=
    if text.points.contains (.char '\'') && !text.points.contains (.char '"') then '"' else '\''
  String.ofList (mark :: text.points.flatMap (quotePoint mark) ++ [mark])

namespace Value

mutual

/-- How a value is displayed inside of another one. -/
def inner : Value → String
  | null => "None"
  | boolean b => if b then "True" else "False"
  | integer n => toString n
  | float x => floatText x
  | text s => quoted s
  | list items => "[" ++ innerItems true items ++ "]"
  | record entries => "\x7b" ++ innerEntries true entries ++ "\x7d"

/-- The displayed items of a list; a comma precedes all but the first. -/
def innerItems (isFirst : Bool) : List Value → String
  | [] => ""
  | item :: rest => (if isFirst then "" else ", ") ++ item.inner ++ innerItems false rest

/-- The displayed entries of a record; a comma precedes all but the first. -/
def innerEntries (isFirst : Bool) : Entries → String
  | [] => ""
  | (key, value) :: rest =>
    (if isFirst then "" else ", ") ++ quoted key ++ ": " ++ value.inner ++
      innerEntries false rest

end

/-- How a value is displayed; a text stands for itself. -/
def display : Value → String
  | text s => s.toString
  | value => value.inner

end Value

end Entail.Json
