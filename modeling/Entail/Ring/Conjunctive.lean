import Entail.Ring.Associate
import Entail.Ring.Negation

/-!
# Conjunctive normal form of rings

Arrows are eliminated, negations pushed inward, and disjunctions distributed
over the conjunctions among their operands, from the inside to the outside,
with every intermediate ring simplified.
-/

namespace Entail.Ring.Builder

/-- Simplifies the ring that a node owns if it is a group; a symbol that is left is put in place of
the group.  The answer is the head of the ring of the node. -/
def simplifyMember (head h : Nat) : Builder Nat := do
  match ← read (·.payload h) with
  | .group content =>
    let inner ← associate content
    if (← read (·.isSingle inner)) && (← read (·.isSymbol inner)) then
      edit (·.swap h inner)
      return if h = head then inner else head
    else
      setContent h inner
      return head
  | _ => return head

/-- Simplifies a ring of clauses. -/
def simplifyClauses (head : Nat) : Builder Nat := do
  associate (← (← read (·.walk head)).foldlM simplifyMember head)

/-- The disjunction of two nodes in conjunctive form, simplified, as a node. -/
def disjoin (x y : Nat) : Builder Nat := do
  let ring ← simplifyClauses (← distribute x .disj y)
  if ← read (·.isSingle ring) then return ring else addGroup ring false

/-- The ring inside of any number of groups around the whole that are not negated. -/
def unwrapTo : Nat → Nat → Builder Nat
  | 0, _ => throw .endlessGroup
  | bound + 1, head => do
    match ← read (·.node head) with
    | ⟨.group content, false, _, some next⟩ =>
      if next = head then unwrapTo bound content else return head
    | _ => return head

/-- The ring that a plain group owns; any other node is a ring by itself. -/
def ringOf (h : Nat) : Builder Nat := do
  match ← read (·.node h) with
  | ⟨.group content, false, _, _⟩ => return content
  | _ => return h

/-- Brings a ring whose groups are in conjunctive form into conjunctive form. -/
def combine (head : Nat) : Builder Nat := do
  let ring ← associate head
  if ← read (·.isSingle ring) then return ring
  else
    let next ← read fun s => do Store.required (← s.next ring)
    match ← read (·.connective next) with
    | .disj =>
      match ← read (·.operands ring) with
      | [] => throw .outOfRange
      | first :: rest =>
        (first :: rest).forM isolate
        ringOf (← rest.foldlM disjoin first)
    | _ => return ring

/-- Brings a ring without arrows and negated groups into conjunctive form, up to the given number
of levels of groups. -/
def combineTo : Nat → Nat → Builder Nat
  | 0, _ => throw .endlessGroup
  | levels + 1, head => do
    (← read (·.walk head)).forM (regroup (combineTo levels))
    combine head

/-- Brings a ring into conjunctive normal form, and returns its head. -/
def conjunctive (head : Nat) : Builder Nat := do
  let normal ← negationNormal (← eliminate head)
  let combined ← combineTo ((← get).size + 1) normal
  unwrapTo ((← get).size + 1) combined

end Entail.Ring.Builder
