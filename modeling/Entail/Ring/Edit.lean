import Entail.Ring.Store

/-!
# Editing rings

Nodes are spliced into rings, taken out of them and exchanged, and rings are
spliced into rings.  Each edit reads the links it needs before it changes any.
-/

namespace Entail.Ring.Store

/-- Makes `a` and `b` neighbours in this order. -/
def link (s : Store) (a b : Option Nat) : Except Error Store := do
  let s ← s.modify (← required a) fun n => { n with next := b }
  s.modify (← required b) fun n => { n with prev := a }

/-- Makes both links of a node point to `target`. -/
def setLinks (s : Store) (h : Nat) (target : Option Nat) : Except Error Store :=
  s.modify h fun n => { n with prev := target, next := target }

/-- Puts the single node `new` behind `h`. -/
def insertAfter (s : Store) (h new : Nat) : Except Error Store := do
  let n ← s.next h
  let s ← s.link (some h) (some new)
  s.link (some new) n

/-- Puts the single node `new` in front of `h`. -/
def insertBefore (s : Store) (h new : Nat) : Except Error Store := do
  let p ← s.prev h
  let s ← s.link p (some new)
  s.link (some new) (some h)

/-- Links single nodes into one ring, in order; the first one is its head. -/
def linkAll (s : Store) (head : Nat) (rest : List Nat) : Except Error Store :=
  rest.foldlM (fun s h => s.insertBefore head h) s

/-- Takes a node out of its ring.  It becomes a ring by itself, or loses its links if `full`. -/
def isolate (s : Store) (h : Nat) (full : Bool) : Except Error Store := do
  let n ← s.node h
  let s ← if n.prev.isSome && n.prev != some h then s.link n.prev n.next else pure s
  s.setLinks h (if full then none else some h)

/-- Takes the node in front of `h` out of the ring; the answer holds its handle. -/
def removeFront (s : Store) (h : Nat) (full : Bool) : Except Error (Store × Nat) := do
  let p ← required (← s.prev h)
  return (← s.isolate p full, p)

/-- Takes the node behind `h` out of the ring; the answer holds its handle. -/
def removeBack (s : Store) (h : Nat) (full : Bool) : Except Error (Store × Nat) := do
  let n ← required (← s.next h)
  return (← s.isolate n full, n)

/-- Exchanges the places of two nodes, which may be in one ring or in two. -/
def swap (s : Store) (h other : Nat) : Except Error Store := do
  if h = other then return s
  let hPrev ← s.prev h
  let hNext ← s.next h
  let oPrev ← s.prev other
  let oNext ← s.next other
  if hNext = some h ∧ oNext = some other then return s
  else if hNext = some h then
    let s ← s.link oPrev (some h)
    let s ← s.link (some h) oNext
    s.setLinks other (some other)
  else if oNext = some other then
    let s ← s.link hPrev (some other)
    let s ← s.link (some other) hNext
    s.setLinks h (some h)
  else if hNext = some other ∧ oNext = some h then return s
  else if hNext = some other then
    let s ← s.link hPrev (some other)
    let s ← s.link (some other) (some h)
    s.link (some h) oNext
  else if oNext = some h then
    let s ← s.link oPrev (some h)
    let s ← s.link (some h) (some other)
    s.link (some other) hNext
  else
    let s ← s.link hPrev (some other)
    let s ← s.link (some other) hNext
    let s ← s.link oPrev (some h)
    s.link (some h) oNext

/-- Splices the ring of `head` into the ring of `h`, in front of `h`. -/
def extendFront (s : Store) (h head : Nat) : Except Error Store := do
  let tail ← s.prev head
  let s ← s.link (← s.prev h) (some head)
  s.link tail (some h)

/-- Splices the ring of `head` into the ring of `h`, behind `h`. -/
def extendBack (s : Store) (h head : Nat) : Except Error Store := do
  let tail ← s.prev head
  let n ← s.next h
  let s ← s.link (some h) (some head)
  s.link tail n

end Entail.Ring.Store
