import Entail.Formula.Printer

/-!
# Simplifying uniform rows

In a row of conjunctions, or of disjunctions, grouping, order and repetition
of operands do not matter.  Groups of the same connective are spliced in,
operands on the same symbol or the same group are merged, complements and
truth constants are absorbed.
-/

namespace Entail

mutual

/-- The operands that an operand of a `c` row contributes to it: plain groups that use no other
connective are opened. -/
def Operand.gather (c : Connective) : Operand → List Operand
  | .symbol negated name => [.symbol negated name]
  | .group negated content =>
    if !negated && content.links.all (· == c) then content.gather c
    else [.group negated content]

/-- The operands of a `c` row, plain groups that use no other connective opened. -/
def Formula.gather (c : Connective) : Formula → List Operand
  | .single x => x.gather c
  | .chain x _ rest => x.gather c ++ rest.gather c

end

/-- What an operand is about, its negation left aside: a symbol name or a written group. -/
def Operand.key : Operand → String
  | .symbol _ name => name
  | .group _ content => "(" ++ content.text ++ ")"

/-- The operand that stands for the operands of one key: the first one, or, if they are not all
of the same sign, the constant that a pair of complements amounts to. -/
def Operand.merge (c : Connective) (first : Operand) (rest : List Operand) : Operand :=
  if rest.all (·.negated == first.negated) then first else .constant c.dominant

/-- One operand for each key, in order of first appearance. -/
def Operand.mergeByKey (c : Connective) : List Operand → List Operand
  | [] => []
  | x :: rest =>
    Operand.merge c x (rest.filter (·.key == x.key)) ::
      Operand.mergeByKey c (rest.filter (·.key != x.key))
termination_by xs => xs.length
decreasing_by
  rw [List.length_unattach, List.length_cons, Nat.lt_succ_iff]
  exact Nat.le_trans (List.length_filter_le ..) (Nat.le_of_eq List.length_attach)

namespace Formula

/-- The simplified row of the given operands under `c`. -/
def simplify (c : Connective) (operands : List Operand) : Formula :=
  let merged := Operand.mergeByKey c operands
  if merged.any (·.truth? == some c.dominant) then single (.constant c.dominant)
  else
    match merged.filter (·.truth?.isNone) with
    | [] => single (.constant !c.dominant)
    | first :: rest => join c first rest

/-- Simplifies a row of conjunctions or of disjunctions; any other row is not changed. -/
def associate : Formula → Formula
  | single x => single x
  | f@(chain _ c rest) =>
    if c.isJunction && rest.links.all (· == c) then simplify c (f.gather c) else f

end Formula

end Entail
