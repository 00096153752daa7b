import Entail.Clause.Basic
import Entail.Truth.Table

/-!
# Clauses of a formula

Every row of the truth table of a formula in which the formula is false gives
the one clause over its symbols that is false in exactly this row.  Together
the clauses say what the formula says.
-/

namespace Entail

namespace Clause

/-- The clause over the given symbols that is false in exactly the given row. -/
def excluding (symbols : List String) (row : List Bool) : Clause :=
  List.zipWith Literal.mk symbols row

/-- The clauses of a formula, one for each row that falsifies it. -/
def ofFormula (f : Formula) : Except Error (List Clause) := do
  let table ← Table.ofSymbols f.propositions
  let values ← table.evaluate f
  return ((table.rows.zip values).filter fun row => !row.2).map fun row =>
    excluding table.symbols row.1

/-- The clauses of all the given formulas, in order. -/
def ofFormulas (formulas : List Formula) : Except Error (List Clause) :=
  return (← formulas.mapM ofFormula).flatten

end Clause

/-- How a conjunction of clauses is written. -/
def conjunctionText (clauses : List Clause) : String :=
  "&".intercalate (clauses.map fun clause => "(" ++ clause.text ++ ")")

end Entail
