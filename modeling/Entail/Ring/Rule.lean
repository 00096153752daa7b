import Entail.Ring.Builder
import Entail.Ring.Copy

/-!
# Rules on two nodes

A rule takes two operand nodes that are rings by themselves, with the
connective between them, and gives the head of an equivalent ring.  It changes
and uses up the nodes it was given; where it does not apply, the ring is made of
the two nodes and the connective.
-/

namespace Entail.Ring

/-- Whether a node is a group that is not negated and uses no other connective in its ring. -/
def Store.isFlat (s : Store) (h : Nat) (c : Connective) : Except Error Bool := do
  match ← s.node h with
  | ⟨.group head, false, _, _⟩ => return (← s.connectives head).all (· == c)
  | _ => return false

namespace Builder

/-! ### Making rings -/

/-- Adds the literal of a truth constant. -/
def addConstant (value : Bool) : Builder Nat :=
  add (.symbol (if value then trueName else falseName)) false

/-- Adds a group that owns a ring. -/
def addGroup (head : Nat) (negated : Bool) : Builder Nat :=
  add (.group head) negated

/-- Copies a node with all that it owns, and returns the copy. -/
def copyNode (h : Nat) : Builder Nat :=
  takeOut (·.copyNode h)

/-- Copies a ring with all that it owns, and returns the head of the copy. -/
def copy (h : Nat) : Builder Nat :=
  takeOut (·.copy h)

/-- Negates a node, or takes its negation away. -/
def toggle (h : Nat) : Builder Unit :=
  edit (·.toggle h)

/-- Takes a node out of its ring. -/
def isolate (h : Nat) : Builder Unit :=
  edit (·.isolate h false)

/-- Makes a node a group that owns the ring of the given head, its negation left as it is. -/
def setContent (h head : Nat) : Builder Unit :=
  edit (·.setPayload h (.group head))

/-- Makes a ring of two nodes and a new connective node between them. -/
def pair (left : Nat) (c : Connective) (right : Nat) : Builder Nat := do
  let link ← add (.link c) false
  edit (·.linkAll left [link, right])
  return left

/-- Makes a ring of nodes and new connective nodes between them. -/
def join (c : Connective) (first : Nat) (rest : List Nat) : Builder Nat := do
  rest.forM fun h => do
    let link ← add (.link c) false
    edit (·.insertBefore first link)
    edit (·.insertBefore first h)
  return first

/-! ### Rules -/

/-- An implication becomes a disjunction, and a disjunction of which exactly one operand is
negated becomes an implication. -/
def implication (left : Nat) (c : Connective) (right : Nat) : Builder Nat := do
  match c with
  | .impl =>
    toggle left
    pair left .disj right
  | .disj =>
    let leftNegated ← read (·.negated left)
    let rightNegated ← read (·.negated right)
    if leftNegated = rightNegated then pair left c right
    else if leftNegated then
      toggle left
      pair left .impl right
    else
      toggle right
      pair right .impl left
  | _ => pair left c right

/-- An equivalence becomes the disjunction of "both false" and "both true". -/
def biconditional (left : Nat) (c : Connective) (right : Nat) : Builder Nat := do
  match c with
  | .iff =>
    let left' ← copyNode left
    let right' ← copyNode right
    toggle left
    toggle right
    let neither ← addGroup (← pair left .conj right) false
    let both ← addGroup (← pair left' .conj right') false
    pair neither .disj both
  | _ => pair left c right

/-- The operands of a node as a row of `dual`: those of its ring if it is flat, else the node. -/
def operandsOf (dual : Connective) (h : Nat) : Builder (List Nat) :=
  read fun s => do
    if ← s.isFlat h dual then s.operands (← s.content h) else return [h]

/-- Makes the group of a copied pair of nodes. -/
def addPairing (c : Connective) (x y : Nat) : Builder Nat := do
  let x' ← copyNode x
  let y' ← copyNode y
  addGroup (← pair x' c y') false

/-- Distributes a connective over groups of its dual. -/
def distribute (left : Nat) (c : Connective) (right : Nat) : Builder Nat := do
  match c.dual? with
  | none => throw (.noDual c)
  | some dual =>
    if (← read (·.isFlat right dual)) || (← read (·.isFlat left dual)) then
      let lefts ← operandsOf dual left
      let rights ← operandsOf dual right
      let pairings ← lefts.mapM fun x => rights.mapM fun y => addPairing c x y
      match pairings.flatten with
      | [] => throw .outOfRange
      | first :: rest => join dual first rest
    else pair left c right

/-- Simplifies a conjunction or disjunction of two literals by complement, idempotence, identity
and annulment. -/
def truthful (left : Nat) (c : Connective) (right : Nat) : Builder Nat := do
  if c.isJunction && (← read (·.isSymbol left)) && (← read (·.isSymbol right)) then
    let leftTruth ← read (·.truth left)
    let rightTruth ← read (·.truth right)
    if leftTruth = some c.dominant ∨ rightTruth = some c.dominant then addConstant c.dominant
    else if leftTruth.isSome then return right
    else if rightTruth.isSome then return left
    else if (← read (·.name left)) = (← read (·.name right)) then
      if (← read (·.negated left)) = (← read (·.negated right)) then return left
      else addConstant c.dominant
    else pair left c right
  else pair left c right

/-- Replaces a connective node and its two neighbours by a group that owns what the rule makes of
them, and returns the head of the ring. -/
def rewriteAt (head op : Nat) (rule : Nat → Connective → Nat → Builder Nat) : Builder Nat := do
  let c ← read (·.connective op)
  let left ← takeOut (·.removeFront op false)
  let right ← takeOut (·.removeBack op false)
  setContent op (← rule left c right)
  edit (·.setNegated op false)
  return if left = head then op else head

end Builder

end Entail.Ring
