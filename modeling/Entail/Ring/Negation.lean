import Entail.Ring.Dual
import Entail.Ring.Elimination

/-!
# Pushing negations inward in rings

De Morgan's law is applied in place to the negated groups of a ring, from the
outside to the inside.
-/

namespace Entail.Ring.Builder

/-- Applies De Morgan's law to a node that is a negated group. -/
def openNegation (h : Nat) : Builder Unit := do
  if ← read (·.negated h) then edit (·.deMorgan h)

/-- Pushes the negations of a ring with rings in it inward, up to the given number of levels. -/
def negationNormalTo : Nat → Nat → Builder Nat
  | 0, _ => throw .endlessGroup
  | levels + 1, head => do
    (← read (·.walk head)).forM fun h => do
      if ← read (·.isGroup h) then
        openNegation h
        regroup (negationNormalTo levels) h
    return head

/-- Pushes the negations of a ring inward. -/
def negationNormal (head : Nat) : Builder Nat := do
  negationNormalTo ((← get).size + 1) head

/-- Puts the ring that a group owns in place of the group, and returns the head of the whole. -/
def splice (head h inner : Nat) : Builder Nat := do
  edit (·.extendFront h inner)
  isolate h
  return if h = head then inner else head

/-- Splices the groups of a ring into it, up to the given number of levels. -/
def flattenTo : Nat → Nat → Builder Nat
  | 0, _ => throw .endlessGroup
  | levels + 1, head => do
    (← read (·.walk head)).foldlM (fun head h => do
      if ← read (·.isGroup h) then
        openNegation h
        splice head h (← flattenTo levels (← read (·.content h)))
      else return head) head

/-- Splices all groups into a ring, and returns its head. -/
def flatten (head : Nat) : Builder Nat := do
  flattenTo ((← get).size + 1) head

/-- The negated copy of a ring: a single operand is toggled, a longer ring becomes a negated
group. -/
def negate (head : Nat) : Builder Nat := do
  let copied ← copy head
  if ← read (·.isSingle copied) then
    toggle copied
    return copied
  else addGroup copied true

end Entail.Ring.Builder
