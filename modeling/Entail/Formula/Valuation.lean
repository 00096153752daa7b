import Entail.Formula.Basic

/-!
# Truth values of formulas

A row is evaluated from left to right: each connective combines the value so
far with the next operand.  Groups are evaluated on their own first.  The
constants keep their value whatever the assignment says about their names.
-/

namespace Entail

/-- A truth value for every name. -/
abbrev Valuation := String → Bool

/-- The value of a name, constants having their own. -/
def Valuation.value (v : Valuation) (name : String) : Bool :=
  (constantValue? name).getD (v name)

mutual

/-- The truth value of an operand. -/
def Operand.eval (v : Valuation) : Operand → Bool
  | .symbol negated name => v.value name != negated
  | .group negated content => content.evalWith v id != negated

/-- The truth value of a row whose first operand passes through `combine`. -/
def Formula.evalWith (v : Valuation) (combine : Bool → Bool) : Formula → Bool
  | .single x => combine (x.eval v)
  | .chain x c rest => rest.evalWith v (c.apply (combine (x.eval v)))

end

/-- The truth value of a formula. -/
def Formula.eval (v : Valuation) (f : Formula) : Bool :=
  f.evalWith v id

mutual

/-- The column of an operand in a truth table with the given number of rows, of which `column`
holds the columns of the names. -/
def Operand.column (rows : Nat) (column : String → List Bool) : Operand → List Bool
  | .symbol negated name =>
    let values := match constantValue? name with
      | some value => List.replicate rows value
      | none => column name
    values.map (· != negated)
  | .group negated content => (content.columnWith rows column id).map (· != negated)

/-- The column of a row whose first operand passes through `combine`. -/
def Formula.columnWith (rows : Nat) (column : String → List Bool)
    (combine : List Bool → List Bool) : Formula → List Bool
  | .single x => combine (x.column rows column)
  | .chain x c rest =>
    rest.columnWith rows column (c.applyColumns (combine (x.column rows column)))

end

/-- The column of a formula in a truth table. -/
def Formula.column (rows : Nat) (column : String → List Bool) (f : Formula) : List Bool :=
  f.columnWith rows column id

end Entail
