import Entail.NormalForm.Associate
import Entail.NormalForm.Elimination
import Entail.NormalForm.Negation

/-!
# Conjunctive normal form

Arrows are eliminated, negations pushed inward, and disjunctions distributed
over the conjunctions among their operands, from the inside to the outside,
with every intermediate row simplified.
-/

namespace Entail

/-- The operand with the inside of a group simplified; a group that comes down to a symbol is
replaced by it. -/
def Operand.associateInside : Operand → Operand
  | .symbol negated name => .symbol negated name
  | .group negated content =>
    match content.associate with
    | .single (.symbol negated name) => .symbol negated name
    | inner => .group negated inner

namespace Formula

/-- The row with the given change made to each operand. -/
def mapOperands (change : Operand → Operand) : Formula → Formula
  | single x => single (change x)
  | chain x c rest => chain (change x) c (rest.mapOperands change)

/-- The formula inside of any number of plain parentheses around the whole. -/
def unwrap : Formula → Formula
  | single (.group false content) => content.unwrap
  | f => f

/-- The disjunction of two operands in conjunctive form, simplified, as an operand. -/
def disjoin (x y : Operand) : Operand :=
  ((Rule.distributeOver .disj .conj x y).mapOperands Operand.associateInside).associate.toOperand

/-- Brings a row whose groups are in conjunctive form into conjunctive form. -/
def combine (f : Formula) : Formula :=
  match f.associate with
  | chain first .disj rest =>
    match rest.operands.foldl disjoin first with
    | .group false content => content
    | x => single x
  | g => g

end Formula

mutual

/-- The operand whose group, if it is one, is in conjunctive form. -/
def Operand.combineInside : Operand → Operand
  | .symbol negated name => .symbol negated name
  | .group negated content => .group negated content.combineInGroups.combine

/-- The row whose groups are in conjunctive form. -/
def Formula.combineInGroups : Formula → Formula
  | .single x => .single x.combineInside
  | .chain x c rest => .chain x.combineInside c rest.combineInGroups

end

/-- The conjunctive normal form. -/
def Formula.conjunctive (f : Formula) : Except Error Formula :=
  f.eliminate.negationNormal.map fun g => g.combineInGroups.combine.unwrap

end Entail
