import Entail.Error
import Entail.Formula.Basic

/-!
# Pushing negations inward

De Morgan's law moves a negation from a group to its operands and replaces the
connectives of the group by their duals; the arrows stand in its way.
`Formula.negationNormal` applies it at every depth, `Formula.flatten` also
drops the parentheses.
-/

namespace Entail

/-- The connective as it reads under a negation that De Morgan's law has moved inward. -/
def Connective.dualIf (flip : Bool) (c : Connective) : Connective :=
  if flip then c.dual?.getD c else c

namespace Formula

/-- Fails at the first connective of a row that has no dual. -/
def requireDual (f : Formula) : Except Error Unit :=
  match f.links.find? (·.isArrow) with
  | some c => .error (.noDual c)
  | none => .ok ()

/-- The row with dual connectives and negated operands. -/
def dualize : Formula → Formula
  | single x => single x.toggle
  | chain x c rest => chain x.toggle (c.dualIf true) rest.dualize

end Formula

mutual

/-- The operand, negated if `flip` holds, with all negations of groups pushed inward. -/
def Operand.pushNegation (flip : Bool) : Operand → Except Error Operand
  | .symbol negated name => .ok (.symbol (negated != flip) name)
  | .group negated content => do
    if negated != flip then content.requireDual
    return .group false (← content.pushNegation (negated != flip))

/-- The row, dualized if `flip` holds, with all negations of groups pushed inward. -/
def Formula.pushNegation (flip : Bool) : Formula → Except Error Formula
  | .single x => return .single (← x.pushNegation flip)
  | .chain x c rest =>
    return .chain (← x.pushNegation flip) (c.dualIf flip) (← rest.pushNegation flip)

end

/-- The row without negated groups. -/
def Formula.negationNormal (f : Formula) : Except Error Formula :=
  f.pushNegation false

mutual

/-- The row of literals that an operand, negated if `flip` holds, consists of. -/
def Operand.literalRow (flip : Bool) : Operand → Except Error Formula
  | .symbol negated name => .ok (.single (.symbol (negated != flip) name))
  | .group negated content => do
    if negated != flip then content.requireDual
    content.literalRow (negated != flip)

/-- The row of literals that a row, dualized if `flip` holds, consists of. -/
def Formula.literalRow (flip : Bool) : Formula → Except Error Formula
  | .single x => x.literalRow flip
  | .chain x c rest => return (← x.literalRow flip).append (c.dualIf flip) (← rest.literalRow flip)

end

/-- The row with all its groups spliced in, De Morgan's law applied to the negated ones. -/
def Formula.flatten (f : Formula) : Except Error Formula :=
  f.literalRow false

end Entail
