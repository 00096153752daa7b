import Entail.NormalForm.Conjunctive

/-!
# Horn form

A Horn clause is a literal or an implication of a positive symbol.  Literals
and definite implications keep their form; anything else must come down to a
disjunction with at most one positive literal, which is written as an
implication from the negative literals, of the constant `false` if there is no
positive one.
-/

namespace Entail

mutual

/-- Positive symbols joined by conjunctions and disjunctions. -/
def Operand.isPositive : Operand → Bool
  | .symbol negated _ => !negated
  | .group negated content => !negated && content.isPositive

/-- A row of positive operands joined by conjunctions and disjunctions. -/
def Formula.isPositive : Formula → Bool
  | .single x => x.isPositive
  | .chain x c rest => x.isPositive && c.isJunction && rest.isPositive

end

namespace Formula

/-- An implication of a positive symbol from positive symbols. -/
def isDefinite : Formula → Bool
  | chain antecedent .impl (single (.symbol false _)) => antecedent.isPositive
  | _ => false

/-- The conjunction of the complements of literals, as an operand. -/
def antecedentOf (first : Operand) (rest : List Operand) : Operand :=
  (join .conj first.toggle (rest.map Operand.toggle)).toOperand

/-- The implication of `consequent` from the complements of literals. -/
def implicationFrom (literals : List Operand) (consequent : Operand) : Formula :=
  match literals with
  | [] => single consequent
  | first :: rest => pair (antecedentOf first rest) .impl consequent

/-- The Horn form of a disjunction of literals; an error quotes the formula `source`. -/
def hornOfRow (source : Formula) (row : Formula) : Except Error Formula :=
  if row.links.any (· != .disj) then .error (.notDisjunctive source.text)
  else
    match row.operands.filter (!·.negated) with
    | [] => .ok (implicationFrom row.operands (.constant false))
    | [positive] => .ok (implicationFrom (row.operands.filter (·.negated)) positive)
    | positives => .error (.severalPositives source.text (positives.flatMap Operand.names))

/-- The Horn form of a formula. -/
def horn (formula : Formula) : Except Error Formula :=
  let f := formula.unwrap
  if f.isLiteral || f.isDefinite then .ok f
  else if 1 < f.links.count .impl then .error (.severalImplications f.text)
  else
    match f.eliminate.flatten with
    | .ok row => hornOfRow f row
    | .error error => .error error

end Formula

end Entail
