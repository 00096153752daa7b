import Entail.Formula.Basic

/-!
# Rows

A nonempty row of elements with a connective between neighbours, whatever the
elements are.  A row of operands is a formula.
-/

namespace Entail

/-- A first element, and the pairs of a connective and an element behind it. -/
structure Row (α : Type) where
  first : α
  rest : List (Connective × α)
  deriving DecidableEq, Repr

/-- The formula of an operand and the pairs of a connective and an operand behind it. -/
def Formula.ofPairs (first : Operand) : List (Connective × Operand) → Formula
  | [] => .single first
  | (c, next) :: rest => .chain first c (Formula.ofPairs next rest)

namespace Row

/-- The row with one more element and its connective in front. -/
def cons {α : Type} (x : α) (c : Connective) (row : Row α) : Row α :=
  ⟨x, (c, row.first) :: row.rest⟩

/-- The row with a function applied to its elements. -/
def map {α β : Type} (f : α → β) (row : Row α) : Row β :=
  ⟨f row.first, row.rest.map fun pair => (pair.1, f pair.2)⟩

/-- The formula that a row of operands is. -/
def formula (row : Row Operand) : Formula :=
  .ofPairs row.first row.rest

end Row

end Entail
