import Entail.Formula.Precedence
import Entail.NormalForm.Rule

/-!
# Eliminating the arrows

Every implication and equivalence of a formula, at any depth, is replaced by
conjunctions, disjunctions and negations: groups first, then the arrows of the
row from left to right.
-/

namespace Entail

/-- The group that says what an arrow between two operands says. -/
def Rule.replaceArrow (x : Operand) (c : Connective) (y : Operand) : Operand :=
  .group false (if c = .impl then implication x c y else biconditional x c y)

/-- The row with its own arrows replaced. -/
def Formula.replaceArrows (f : Formula) : Formula :=
  f.mergeLinks Connective.isArrow Rule.replaceArrow

mutual

/-- The operand without arrows. -/
def Operand.eliminate : Operand → Operand
  | .symbol negated name => .symbol negated name
  | .group negated content => .group negated content.eliminateInGroups.replaceArrows

/-- The row whose groups are without arrows. -/
def Formula.eliminateInGroups : Formula → Formula
  | .single x => .single x.eliminate
  | .chain x c rest => .chain x.eliminate c rest.eliminateInGroups

end

/-- The formula without arrows. -/
def Formula.eliminate (f : Formula) : Formula :=
  f.eliminateInGroups.replaceArrows

end Entail
