import Entail.Ring.Rule

/-!
# Simplifying rings

In a ring whose connectives are all conjunctions, or all disjunctions, groups
of the same connective are opened, nodes on the same symbol or the same group
are merged, and truth constants are absorbed.  The nodes that are left become a
new ring.
-/

namespace Entail.Ring

namespace Store

/-- The connective of a ring, if it has one that is a conjunction or a disjunction and no other. -/
def junction? (s : Store) (head : Nat) : Except Error (Option Connective) := do
  match ← s.connectives head with
  | [] => return none
  | c :: rest => return if c.isJunction && rest.all (· == c) then some c else none

/-- The operand nodes of a ring, flat groups opened, up to the given number of levels. -/
def gatherTo (s : Store) (c : Connective) : Nat → Nat → Except Error (List Nat)
  | 0, _ => .error .endlessGroup
  | levels + 1, head => do
    let gathered ← (← s.operands head).mapM fun h => do
      if ← s.isFlat h c then s.gatherTo c levels (← s.content h) else return [h]
    return gathered.flatten

/-- The operand nodes of a ring, flat groups opened. -/
def gather (s : Store) (c : Connective) (head : Nat) : Except Error (List Nat) :=
  s.gatherTo c (s.size + 1) head

/-- What an operand node is about, its negation left aside: a symbol name or a written group. -/
def key (s : Store) (h : Nat) : Except Error String := do
  match ← s.payload h with
  | .symbol name => return name
  | .group head => return "(" ++ (← s.text head) ++ ")"
  | .link _ => throw .otherPayload

end Store

/-- Puts a node into the bucket of its key, a new one if there is none. -/
def putIntoBucket : List (String × List Nat) → String × Nat → List (String × List Nat)
  | [], (key, h) => [(key, [h])]
  | (other, hs) :: rest, (key, h) =>
    if other = key then (other, hs ++ [h]) :: rest
    else (other, hs) :: putIntoBucket rest (key, h)

namespace Builder

/-- Takes a node out of its ring, and reads its key. -/
def takeKey (h : Nat) : Builder (String × Nat) := do
  isolate h
  return (← read (·.key h), h)

/-- The node that stands for the nodes of a bucket: the first one, or, if they are not all of the
same sign, a new constant. -/
def mergeBucket (c : Connective) : List Nat → Builder Nat
  | [] => throw .outOfRange
  | first :: rest => do
    let sign ← read (·.negated first)
    if (← read fun s => rest.mapM s.negated).all (· == sign) then return first
    else addConstant c.dominant

/-- Makes the ring of nodes with the given truth values, if they are constants. -/
def joinDecided (c : Connective) (operands : List (Nat × Option Bool)) : Builder Nat :=
  if operands.any (·.2 == some c.dominant) then addConstant c.dominant
  else
    match operands.filter (·.2.isNone) with
    | [] => addConstant !c.dominant
    | first :: rest => join c first.1 (rest.map Prod.fst)

/-- Simplifies a ring of conjunctions or of disjunctions, and returns the head of the new ring; any
other ring is not changed. -/
def associate (head : Nat) : Builder Nat := do
  match ← read (·.junction? head) with
  | none => return head
  | some c =>
    let keyed ← (← read (·.gather c head)).mapM takeKey
    let merged ← (keyed.foldl putIntoBucket []).mapM fun bucket => mergeBucket c bucket.2
    let decided ← read fun s => merged.mapM fun h => return (h, ← s.truth h)
    joinDecided c decided

end Builder

end Entail.Ring
