import Entail.Error
import Entail.Formula.Valuation

/-!
# Truth tables

Row 0 of the table over `n` symbols makes every symbol true; the symbol in
column `i` flips its value every `2 ^ (n - 1 - i)` rows.  A row is the binary
expansion of its number, so it is determined by the low `n` bits alone and row
numbers may lie outside of the table, even below zero.
-/

namespace Entail

/-- The largest number of symbols that a truth table may have. -/
def maxTableSymbols : Nat := 62

/-- The value in column `i` of a row. -/
def rowBit (n : Nat) (row : Int) (i : Nat) : Bool :=
  (row >>> (n - 1 - i)) % 2 == 0

/-- A row of the truth table over `n` symbols. -/
def truthRow (n : Nat) (row : Int) : List Bool :=
  (List.range n).map (rowBit n row)

/-- Consecutive rows of the truth table over some symbols. -/
structure Table where
  symbols : List String
  /-- The number of the first row. -/
  start : Int
  /-- The number of rows. -/
  size : Nat
  deriving DecidableEq, Repr

namespace Table

/-- The rows of a table. -/
def rows (table : Table) : List (List Bool) :=
  (List.range table.size).map fun (i : Nat) => truthRow table.symbols.length (table.start + i)

/-- The part of the table over the given symbols from row `start` up to but not including
`stop`. -/
def between (symbols : List String) (start stop : Int) : Except Error Table :=
  if maxTableSymbols < symbols.length then .error (.tooManyColumns symbols.length)
  else .ok ⟨symbols, start, (stop - start).toNat⟩

/-- The whole table over the given symbols. -/
def ofSymbols (symbols : List String) : Except Error Table :=
  between symbols 0 (Nat.pow 2 symbols.length)

/-- The number of rows that are evaluated at once. -/
def chunkSize : Nat := 65536

/-- The first row and the end of every chunk of the table over `n` symbols. -/
def chunkBounds (n : Nat) : List (Nat × Nat) :=
  (List.range ((Nat.pow 2 n + (chunkSize - 1)) / chunkSize)).map fun k =>
    (k * chunkSize, min (k * chunkSize + chunkSize) (Nat.pow 2 n))

/-- The values in column `i` of a table. -/
def columnAt (table : Table) (i : Nat) : List Bool :=
  (List.range table.size).map fun (k : Nat) => rowBit table.symbols.length (table.start + k) i

/-- The column of a symbol; the last one, if the symbol is listed repeatedly. -/
def column? (table : Table) (symbol : String) : Option (List Bool) :=
  (table.symbols.zipIdx.reverse.find? fun entry => entry.1 == symbol).map fun entry =>
    table.columnAt entry.2

/-- The values of a formula in all rows; each of its symbols has to be listed. -/
def evaluate (table : Table) (f : Formula) : Except Error (List Bool) :=
  match f.propositions.find? fun symbol => !table.symbols.contains symbol with
  | some symbol => .error (.unlistedSymbol symbol)
  | none => .ok (f.column table.size fun symbol => (table.column? symbol).getD [])

end Table

/-- How a truth value is written in a truth table. -/
def truthLetter (value : Bool) : String :=
  if value then "T" else "F"

end Entail
