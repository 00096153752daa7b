import Entail.Error
import Entail.Formula.Basic

/-!
# Rules on two operands

Each rule takes a connective with its two operands and gives an equivalent
row; where a rule does not apply, the row is the one it was given.
-/

namespace Entail.Rule

open Formula

/-- An implication becomes a disjunction, and a disjunction of which exactly one operand is
negated becomes an implication. -/
def implication (left : Operand) (c : Connective) (right : Operand) : Formula :=
  match c with
  | .impl => pair left.toggle .disj right
  | .disj =>
    if left.negated = right.negated then pair left c right
    else if left.negated then pair left.toggle .impl right
    else pair right.toggle .impl left
  | _ => pair left c right

/-- An equivalence becomes the disjunction of "both false" and "both true". -/
def biconditional (left : Operand) (c : Connective) (right : Operand) : Formula :=
  match c with
  | .iff =>
    pair (.group false (pair left.toggle .conj right.toggle)) .disj
      (.group false (pair left .conj right))
  | _ => pair left c right

/-- The operands of a plain group whose own connectives are all `c`. -/
def operandsOf? (c : Connective) : Operand → Option (List Operand)
  | .group false content => if content.links.all (· == c) then some content.operands else none
  | _ => none

/-- Pairs every operand of `lefts` with every one of `rights`. -/
def pairings (c : Connective) (lefts rights : List Operand) : List Operand :=
  lefts.flatMap fun x => rights.map fun y => .group false (pair x c y)

/-- Distributes `c` over the operands of groups joined by `dual`. -/
def distributeOver (c dual : Connective) (left right : Operand) : Formula :=
  match operandsOf? dual left, operandsOf? dual right with
  | none, none => pair left c right
  | lefts, rights =>
    match pairings c (lefts.getD [left]) (rights.getD [right]) with
    | [] => pair left c right
    | first :: rest => join dual first rest

/-- Distributes a connective over groups of its dual. -/
def distribute (left : Operand) (c : Connective) (right : Operand) : Except Error Formula :=
  match c.dual? with
  | some dual => .ok (distributeOver c dual left right)
  | none => .error (.noDual c)

/-- Simplifies a conjunction or disjunction of two literals by complement, idempotence, identity
and annulment. -/
def truthful (left : Operand) (c : Connective) (right : Operand) : Formula :=
  match left, right with
  | .symbol leftNegated leftName, .symbol rightNegated rightName =>
    if !c.isJunction then pair left c right
    else if left.truth? = some c.dominant ∨ right.truth? = some c.dominant then
      single (.constant c.dominant)
    else if left.truth?.isSome then single right
    else if right.truth?.isSome then single left
    else if leftName = rightName then
      if leftNegated = rightNegated then single left else single (.constant c.dominant)
    else pair left c right
  | _, _ => pair left c right

theorem pairings_ne_nil {c : Connective} {lefts rights : List Operand}
    (left : lefts ≠ []) (right : rights ≠ []) : pairings c lefts rights ≠ [] := by
  cases lefts with
  | nil => exact absurd rfl left
  | cons x xs =>
    cases rights with
    | nil => exact absurd rfl right
    | cons y ys => simp [pairings]

end Entail.Rule
