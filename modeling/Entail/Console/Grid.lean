import Entail.Console.Cell
import Entail.Text.Blank
import Entail.Text.Line

/-!
# Tables of cells

Columns are two blanks apart and as wide as their widest cell, but at least two
characters wider than their header.  Columns of numbers are set flush right,
point below point, others flush left, headers like their column; a line of
dashes follows the headers, and no line ends in a blank.  Only what a console
shows of a text counts for the widths.
-/

namespace Entail.Console

/-- A table with the headers of its columns and its rows. -/
structure Grid where
  headers : List String
  rows : List (List Cell)

/-- How the texts of a table are measured, which is the same for all of them. -/
structure Measure where
  /-- Whether there are escape sequences in the table. -/
  escapes : Bool
  /-- Whether there are breaks of lines in the table. -/
  multiline : Bool
  deriving DecidableEq, Repr

/-- The characters that break a text into the lines that its width is taken from. -/
def isReturn (c : Char) : Bool :=
  c = '\n' || c = '\r'

namespace Measure

/-- The measure of a table, given all of its texts set apart by tabs. -/
def ofText (cs : List Char) : Measure :=
  ⟨hasEscape cs, cs.any isReturn⟩

/-- The number of characters of a line that are hidden. -/
def hidden (m : Measure) (line : List Char) : Nat :=
  if m.escapes then line.length - (visible line).length else 0

/-- The lines that the width of a text is taken from. -/
def pieces (m : Measure) (cs : List Char) : List (List Char) :=
  if m.multiline then Text.splitWhere isReturn cs else [cs]

/-- The width of the widest line of a text. -/
def width (m : Measure) (cs : List Char) : Nat :=
  ((m.pieces cs).map fun line => line.length - m.hidden line).foldl max 0

end Measure

/-- The side of a column that its cells are set to. -/
inductive Alignment
  | left
  | right
  deriving DecidableEq, Repr

/-- A line filled up with blanks to the given number of characters. -/
def Alignment.pad (side : Alignment) (length : Nat) (line : List Char) : List Char :=
  let gap := List.replicate (length - line.length) ' '
  match side with
  | .left => line ++ gap
  | .right => gap ++ line

theorem Alignment.length_pad (side : Alignment) (length : Nat) (line : List Char) :
    (side.pad length line).length = max length line.length := by
  cases side <;> simp only [pad, List.length_append, List.length_replicate] <;> omega

/-- Lines put together to a text. -/
def joinLines (lines : List (List Char)) : List Char :=
  List.intercalate ['\n'] lines

namespace Measure

/-- A header whose lines are filled up to the given width. -/
def fillHeader (m : Measure) (side : Alignment) (width : Nat) (header : List Char) : List Char :=
  joinLines ((m.pieces header).map fun line => side.pad (width + m.hidden line) line)

/-- A text whose lines are filled up to the given width.  Where lines can hide something, there are
at most as many of them as the width of the text is taken from. -/
def fill (m : Measure) (side : Alignment) (width : Nat) (cs : List Char) : List Char :=
  if !m.multiline then side.pad (width + m.hidden cs) cs
  else if m.escapes then
    joinLines (List.zipWith (fun line hidden => side.pad (width + hidden) line) (Text.lines cs)
      ((m.pieces cs).map m.hidden))
  else joinLines ((Text.lines cs).map (side.pad width))

end Measure

/-- The number of places behind the point, or the exponent mark, of a number, and the mark. -/
def places (cs : List Char) : Nat :=
  let text := String.ofList cs
  let behind (isMark : Char → Bool) : Nat :=
    if cs.any isMark then (cs.reverse.takeWhile fun c => !isMark c).length + 1 else 0
  if Decimal.isWhole text || !(Decimal.isNumber text || Decimal.isGrouped text) then 0
  else if cs.contains '.' then behind (· == '.')
  else behind fun c => c = 'e' || c = 'E'

/-- Numbers followed by blanks such that their points are below each other. -/
def alignPoints (m : Measure) (cells : List (List Char)) : List (List Char) :=
  let count (cs : List Char) : Nat := places (if m.escapes then visible cs else cs)
  let most := (cells.map count).foldl max 0
  cells.map fun cs => cs ++ List.replicate (most - count cs) ' '

/-- A column with its filled header and its filled cells. -/
structure Column where
  header : List Char
  cells : List (List Char)
  width : Nat
  deriving DecidableEq, Repr

namespace Column

/-- The column of the given header and cells. -/
def ofCells (m : Measure) (header : List Char) (cells : List Cell) : Except Error Column := do
  let kind := Cell.columnKind cells
  let texts := (← cells.mapM (·.write kind m.escapes)).map String.toList
  let (side, texts) : Alignment × List (List Char) :=
    if kind.isNumeric then (.right, alignPoints m texts) else (.left, texts.map Text.trimBlanks)
  let least := m.width header + 2
  let cells := texts.map (m.fill side ((texts.map m.width).foldl max least))
  let width := (cells.map m.width).foldl max least
  return ⟨m.fillHeader side width header, cells, width⟩

/-- The blanks that stand for a line that a cell does not have. -/
def blanks (column : Column) : List Char :=
  List.replicate column.width ' '

end Column

/-- A line of a table. -/
def gridLine (cells : List (List Char)) : List Char :=
  Text.trimEnd (List.intercalate [' ', ' '] cells)

/-- The line of dashes. -/
def ruleLine (columns : List Column) : List Char :=
  gridLine (columns.map fun column => List.replicate column.width '-')

/-- The lines of the row that the given function picks from the columns. -/
def rowLines (m : Measure) (columns : List Column) (cell : Column → List Char) :
    List (List Char) :=
  if m.multiline then
    let parts := columns.map fun column => (Text.lines (cell column), column.blanks)
    let height := (parts.map (·.1.length)).foldl max 0
    (List.range height).map fun i => gridLine (parts.map fun part => part.1.getD i part.2)
  else [gridLine (columns.map cell)]

/-- Whether a row is to be a line of dashes, as one of its first two cells says. -/
def isRule (row : List Cell) : Bool :=
  (row.take 2).any Cell.isRule

namespace Grid

/-- The measure of the texts of a table. -/
def measure (grid : Grid) : Measure :=
  let texts := grid.headers ++ ((grid.rows.filter fun row => !isRule row).flatten.map Cell.display)
  .ofText ("\t".intercalate texts).toList

/-- The columns of a table. -/
def columns (grid : Grid) : Except Error (List Column) :=
  let rows := grid.rows.filter fun row => !isRule row
  grid.headers.zipIdx.mapM fun header =>
    Column.ofCells grid.measure header.1.toList (rows.map (·.getD header.2 .missing))

/-- The lines of the given rows; `i` rows with cells of their own precede them. -/
def body (m : Measure) (columns : List Column) (i : Nat) : List (List Cell) → List (List Char)
  | [] => []
  | row :: rest =>
    if isRule row then ruleLine columns :: body m columns i rest
    else rowLines m columns (·.cells.getD i []) ++ body m columns (i + 1) rest

/-- The written form of a table, without a line feed at its end. -/
def write (grid : Grid) : Except Error String := do
  let columns ← grid.columns
  let headers := rowLines grid.measure columns (·.header)
  let body := body grid.measure columns 0 grid.rows
  return String.ofList (joinLines (headers ++ ruleLine columns :: body))

end Grid

end Entail.Console
