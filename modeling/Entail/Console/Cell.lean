import Entail.Console.Escape
import Entail.Decimal.Digits
import Entail.Decimal.Spelling
import Entail.Text.Hexadecimal

/-!
# Cells of tables

The cells of a column have a common kind, the most general one among theirs,
which decides how each of them is written.  A text counts as what it spells
once its escape sequences are read, and as missing if nothing is visible of it.
-/

namespace Entail.Console

/-- What a cell of a table holds. -/
inductive Cell
  | missing
  | boolean (b : Bool)
  | whole (n : Int)
  | number (x : Float)
  | text (s : String)

/-- The kinds of cells, from the most special to the most general. -/
inductive CellKind
  | missing
  | boolean
  | whole
  | number
  | text
  deriving DecidableEq, Repr

namespace CellKind

def rank : CellKind → Nat
  | missing => 0
  | boolean => 1
  | whole => 2
  | number => 3
  | text => 4

/-- The more general one of two kinds. -/
def join (a b : CellKind) : CellKind :=
  if a.rank < b.rank then b else a

def isNumeric (kind : CellKind) : Bool :=
  kind = whole || kind = number

end CellKind

/-- The visible part of a text. -/
def visibleText (s : String) : String :=
  String.ofList (visible s.toList)

/-- The kind of what a text without escape sequences spells. -/
def kindOfText (s : String) : CellKind :=
  if s.isEmpty then .missing
  else if s = "True" ∨ s = "False" then .boolean
  else if Decimal.isWhole s || (Decimal.isGrouped s && !s.contains '.') then .whole
  else if Decimal.isNumber s || Decimal.isGrouped s then .number
  else .text

/-- A finite number to six significant digits, or the name of another one. -/
def briefNumber (x : Float) : String :=
  if x.isNaN then "nan"
  else if x.isInf then (if x < 0 then "-inf" else "inf")
  else Decimal.briefText x

/-- The text with every occurrence of `old` replaced, from left to right; `skip` characters of it
belong to an occurrence found before. -/
def replaceFrom (old new : List Char) : Nat → List Char → List Char
  | _, [] => []
  | skip + 1, _ :: rest => replaceFrom old new skip rest
  | 0, c :: rest =>
    if !old.isEmpty && old.isPrefixOf (c :: rest) then
      new ++ replaceFrom old new (old.length - 1) rest
    else c :: replaceFrom old new 0 rest

/-- A text among numbers: the number that is visible of it is written to six significant digits,
in place if there are escape sequences in the table; commas are left out if there are none. -/
def numberText (escapes : Bool) (s : String) : String :=
  let spelled := if escapes then visibleText s else String.ofList (s.toList.filter (· != ','))
  match Decimal.float? spelled with
  | none => s
  | some x =>
    if escapes then
      String.ofList (replaceFrom spelled.toList (briefNumber x).toList 0 s.toList)
    else briefNumber x

/-- Whether a character is a control character or one of the Latin supplement. -/
def isCoded (c : Char) : Bool :=
  (c.toNat < 0x20 && !(['\t', '\n', '\r'].contains c)) || isWithin 0x7f 0xff c

/-- Whether a character would not stand for itself in plain text. -/
def isSpecial (c : Char) : Bool :=
  c = '\\' || !isWithin 0x20 0x7e c

/-- The colour code that a text begins with, if there is one. -/
def colorCode? : List Char → Option (List Char)
  | [] => none
  | c :: rest =>
    let digits := rest.takeWhile fun c => (Text.hexValue? c).isSome
    match rest.drop digits.length with
    | '[' :: behind =>
      let number := behind.takeWhile Char.isDigit
      let marks := (behind.drop number.length).takeWhile fun c => c = 'm' || c = 'M'
      if isCoded c && !number.isEmpty && !marks.isEmpty then
        some (c :: digits ++ '[' :: number ++ marks)
      else none
    | _ => none

/-- A text whose first colour code in front of a whole number is made its beginning, with the
digits of the number brought into the shortest form; any other text is not changed. -/
def coloredWhole? : List Char → Option (List Char)
  | [] => none
  | c :: rest =>
    let here := do
      let code ← colorCode? (c :: rest)
      let behind := (c :: rest).drop code.length
      let number := behind.takeWhile fun (c : Char) => c.isDigit || c = '.'
      match behind.drop number.length with
      | [] => none
      | next :: _ =>
        if number.isEmpty || !isSpecial next then none
        else some (code, number, behind.drop number.length)
    match here with
    | none => coloredWhole? rest
    | some (code, number, behind) =>
      if number.contains '.' then none
      else some (code ++ Text.digitsOf (Text.numberOf number) ++ behind)

namespace Cell

/-- The kind of a cell. -/
def kind : Cell → CellKind
  | missing => .missing
  | boolean _ => .boolean
  | whole _ => .whole
  | number _ => .number
  | text s => kindOfText (visibleText s)

/-- The kind of a column: the most general one of its cells, but at least that of truth values. -/
def columnKind (cells : List Cell) : CellKind :=
  cells.foldl (fun kind cell => kind.join cell.kind) .boolean

/-- Whether a cell makes its row a line of dashes. -/
def isRule : Cell → Bool
  | text s => Text.trim s = "\x01"
  | _ => false

/-- A cell in full. -/
def display : Cell → String
  | missing => ""
  | boolean b => if b then "True" else "False"
  | whole n => toString n
  | number x => if x.isFinite then Decimal.exactText x else briefNumber x
  | text s => s

/-- A cell in a column of numbers. -/
def writeNumber (escapes : Bool) : Cell → Except Error String
  | missing => .ok ""
  | boolean b => .ok (if b then "1" else "0")
  | whole n =>
    match Decimal.ofInt? n with
    | some x => .ok (briefNumber x)
    | none => .error .tooLarge
  | number x => .ok (briefNumber x)
  | text s => .ok (numberText escapes s)

/-- A cell as it is written in a column of the given kind. -/
def write (kind : CellKind) (escapes : Bool) (cell : Cell) : Except Error String :=
  match kind, cell with
  | .number, cell => cell.writeNumber escapes
  | .whole, text s => .ok (String.ofList ((coloredWhole? s.toList).getD s.toList))
  | _, cell => .ok cell.display

end Cell

end Entail.Console
