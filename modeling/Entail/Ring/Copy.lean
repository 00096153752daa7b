import Entail.Ring.Edit
import Entail.Ring.Walk

/-!
# Copying rings

A copy of a node or of a ring is made of new nodes throughout: the rings that
its groups own are copied as well, each before the group that owns it.
-/

namespace Entail.Ring.Store

/-- Copies a node; `inner` copies the ring of a group.  The answer holds the handle of the copy. -/
def copyNodeWith (inner : Store → Nat → Except Error (Store × Nat)) (s : Store) (h : Nat) :
    Except Error (Store × Nat) := do
  let n ← s.node h
  match n.payload with
  | .group head =>
    let (s, copied) ← inner s head
    return (s.add (.group copied) n.negated, s.size)
  | payload => return (s.add payload n.negated, s.size)

/-- Copies a ring with rings in it, up to the given number of levels.  The answer holds the head of
the copy. -/
def copyTo : Nat → Store → Nat → Except Error (Store × Nat)
  | 0, _, _ => .error .endlessGroup
  | levels + 1, s, h => do
    let rest := (← s.walk h).tail
    let (s, head) ← copyNodeWith (copyTo levels) s h
    let s ← rest.foldlM (fun s n => do
      let (s, copied) ← copyNodeWith (copyTo levels) s n
      s.insertBefore head copied) s
    return (s, head)

/-- Copies a node with all that it owns. -/
def copyNode (s : Store) (h : Nat) : Except Error (Store × Nat) :=
  copyNodeWith (copyTo s.size) s h

/-- Copies a ring with all that it owns. -/
def copy (s : Store) (h : Nat) : Except Error (Store × Nat) :=
  copyTo (s.size + 1) s h

end Entail.Ring.Store
