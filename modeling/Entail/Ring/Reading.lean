import Entail.Formula.Row
import Entail.Ring.Walk

/-!
# Rings as formulas

A ring whose members alternate between operands and connectives, and whose
groups own such rings, is a formula; it is read from its head on.
-/

namespace Entail.Ring.Store

/-- The operand that a node holds; `inner` reads the ring of a group. -/
def operandWith (s : Store) (inner : Nat → Except Error Formula) (h : Nat) :
    Except Error Operand := do
  let n ← s.node h
  match n.payload with
  | .symbol name => return .symbol n.negated name
  | .group head => return .group n.negated (← inner head)
  | .link _ => throw .otherPayload

/-- The pairs of a connective and an operand that the given nodes hold in turn. -/
def pairsWith (s : Store) (inner : Nat → Except Error Formula) :
    List Nat → Except Error (List (Connective × Operand))
  | [] => .ok []
  | [_] => .error .otherPayload
  | link :: operand :: rest => do
    let c ← s.connective link
    let x ← s.operandWith inner operand
    return (c, x) :: (← s.pairsWith inner rest)

/-- The formula that a ring holds, up to the given number of levels of groups. -/
def formulaTo (s : Store) : Nat → Nat → Except Error Formula
  | 0, _ => .error .endlessGroup
  | levels + 1, h => do
    let first ← s.operandWith (s.formulaTo levels) h
    return .ofPairs first (← s.pairsWith (s.formulaTo levels) (← s.walk h).tail)

/-- The formula that a ring holds. -/
def formula (s : Store) (h : Nat) : Except Error Formula :=
  s.formulaTo (s.size + 1) h

end Entail.Ring.Store
