import Entail.Formula.Slot
import Entail.Ring.Edit
import Entail.Ring.Walk

/-!
# Building rings

A builder adds nodes to a store and changes links of it; what it did before it
failed stays done.  The slots of a row become the nodes of one ring, and the
connectives of a ring are grouped by strength in place.
-/

namespace Entail.Ring

/-- A program that works on a store. -/
abbrev Builder := EStateM Error Store

namespace Builder

/-- Reads something off the store. -/
def read {α : Type} (look : Store → Except Error α) : Builder α := fun s =>
  match look s with
  | .ok a => .ok a s
  | .error error => .error error s

/-- Changes the store. -/
def edit (change : Store → Except Error Store) : Builder Unit := fun s =>
  match change s with
  | .ok changed => .ok () changed
  | .error error => .error error s

/-- Adds a node that is a ring by itself, and returns its handle. -/
def add (payload : Payload) (negated : Bool) : Builder Nat := fun s =>
  .ok s.size (s.add payload negated)

/-- Takes the node that `neighbour` finds out of its ring, and returns its handle. -/
def takeOut (neighbour : Store → Except Error (Store × Nat)) : Builder Nat := fun s =>
  match neighbour s with
  | .ok (changed, h) => .ok h changed
  | .error error => .error error s

/-! ### Rows -/

/-- What the node of a slot holds, whose back-reference holds the head of a ring. -/
def slotPayload : Slot Nat → Payload
  | .symbol _ name => .symbol name
  | .reference _ head => .group head

/-- Adds a node to the end of a ring. -/
def push (head : Nat) (payload : Payload) (negated : Bool) : Builder Unit := do
  let new ← add payload negated
  edit (·.insertBefore head new)

/-- Adds the nodes of a connective and of the slot behind it to the end of a ring. -/
def addLink (head : Nat) (link : Connective × Slot Nat) : Builder Unit := do
  push head (.link link.1) false
  push head (slotPayload link.2) link.2.negated

/-- Makes a ring of a row, and returns its head. -/
def addRow (row : Row (Slot Nat)) : Builder Nat := do
  let head ← add (slotPayload row.first) row.first.negated
  row.rest.forM (addLink head)
  return head

/-! ### Precedence -/

/-- Turns a connective node into a group that owns it and its two neighbours, and returns the head
of the ring. -/
def collapse (head op : Nat) : Builder Nat := do
  let left ← takeOut (·.removeFront op false)
  let right ← takeOut (·.removeBack op false)
  let link ← add (.link (← read (·.connective op))) false
  edit (·.linkAll left [link, right])
  edit (·.setPayload op (.group left))
  edit (·.setNegated op false)
  return if left = head then op else head

/-- Collapses the leftmost node of the given connective as long as there are several connectives
and one of them is the given one.  The answer holds the head of the ring, and whether there is one
connective left at most. -/
def groupLevel (c : Connective) : Nat → Nat → Builder (Nat × Bool)
  | 0, _ => throw .endlessGroup
  | bound + 1, head => do
    let ops ← read fun s => do (← s.walk head).filterM s.isLink
    if ops.length < 2 then return (head, true)
    match ← read fun s => ops.findM? fun op => return (← s.connective op) = c with
    | none => return (head, false)
    | some op => groupLevel c bound (← collapse head op)

/-- Collapses the nodes of the given connectives, those of the first one first; each collapse
leaves fewer members in the ring, so that the size of the store bounds their number. -/
def groupLevels : List Connective → Nat → Builder Nat
  | [], head => return head
  | c :: weaker, head => do
    let (head, done) ← groupLevel c ((← get).size + 1) head
    if done then return head else groupLevels weaker head

/-- Changes the ring that a node owns if it is a group; `inner` changes a ring, and returns its new
head. -/
def regroup (inner : Nat → Builder Nat) (h : Nat) : Builder Unit := do
  match ← read (·.payload h) with
  | .group content =>
    let head ← inner content
    edit (·.setPayload h (.group head))
  | _ => return

/-- Groups the connectives of a ring by strength, after those of the rings that its groups own, up
to the given number of levels.  The answer is the head of the ring. -/
def applyPrecedence : Nat → Nat → Builder Nat
  | 0, _ => throw .endlessGroup
  | levels + 1, head => do
    (← read (·.walk head)).forM (regroup (applyPrecedence levels))
    groupLevels Connective.byStrength head

end Builder

end Entail.Ring
