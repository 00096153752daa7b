import Entail.Ring.Walk

/-!
# De Morgan's law on rings

A group keeps its meaning if its negation is flipped, every connective of its
ring is replaced by its dual, and every operand of its ring is negated.
-/

namespace Entail.Ring.Store

/-- Replaces a connective node by its dual, and flips the negation of any other node. -/
def dualizeNode (s : Store) (h : Nat) : Except Error Store := do
  match ← s.payload h with
  | .link c =>
    match c.dual? with
    | some d => s.setPayload h (.link d)
    | none => throw (.noDual c)
  | _ => s.toggle h

/-- Applies De Morgan's law to a group node; deeper groups are left alone, and so is a node that
is no group. -/
def deMorgan (s : Store) (h : Nat) : Except Error Store := do
  match ← s.payload h with
  | .group head =>
    let s ← s.toggle h
    (← s.walk head).foldlM dualizeNode s
  | _ => return s

end Entail.Ring.Store
