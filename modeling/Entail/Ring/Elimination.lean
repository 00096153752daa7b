import Entail.Ring.Rule

/-!
# Eliminating the arrows of rings

Every implication and equivalence of a ring is rewritten in place, those of the
rings in its groups first.
-/

namespace Entail.Ring.Builder

/-- The first arrow of a ring. -/
def findArrow? (head : Nat) : Builder (Option Nat) :=
  read fun s => do
    (← s.walk head).findM? fun h => do
      if ← s.isLink h then return (← s.connective h).isArrow else return false

/-- The rule that an arrow is eliminated by. -/
def arrowRule (left : Nat) (c : Connective) (right : Nat) : Builder Nat :=
  if c = .impl then implication left c right else biconditional left c right

/-- Rewrites the first arrow of a ring as long as there is one, at most `bound` times. -/
def replaceArrows : Nat → Nat → Builder Nat
  | 0, _ => throw .endlessGroup
  | bound + 1, head => do
    match ← findArrow? head with
    | none => return head
    | some op => replaceArrows bound (← rewriteAt head op arrowRule)

/-- Eliminates the arrows of a ring with rings in it, up to the given number of levels. -/
def eliminateTo : Nat → Nat → Builder Nat
  | 0, _ => throw .endlessGroup
  | levels + 1, head => do
    (← read (·.walk head)).forM (regroup (eliminateTo levels))
    replaceArrows ((← get).size + 1) head

/-- Eliminates the arrows of a ring, and returns its head. -/
def eliminate (head : Nat) : Builder Nat := do
  eliminateTo ((← get).size + 1) head

end Entail.Ring.Builder
