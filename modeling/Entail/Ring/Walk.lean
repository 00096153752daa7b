import Entail.Formula.Printer
import Entail.Ring.Store

/-!
# Walking rings

The members of a ring are found by following the forward links from a node
until it comes up again; a node without links is walked alone.  As a ring has
no more members than its store has nodes, that number bounds the walk; it also
bounds the levels of rings in rings.
-/

namespace Entail.Ring.Store

/-- Follows at most `bound` forward links from `h` on, until `start` comes up again. -/
def walkFrom (s : Store) (start : Nat) : Nat → Nat → Except Error (List Nat)
  | 0, _ => .ok []
  | bound + 1, h => do
    match ← s.next h with
    | none => return [h]
    | some n => if n = start then return [h] else return h :: (← s.walkFrom start bound n)

/-- The handles of a ring, from the given one on. -/
def walk (s : Store) (h : Nat) : Except Error (List Nat) := do
  discard (s.node h)
  s.walkFrom h s.size h

/-- The operand nodes of a ring. -/
def operands (s : Store) (h : Nat) : Except Error (List Nat) := do
  (← s.walk h).filterM fun n => (s.isLink n).map (!·)

/-- The connectives of a ring. -/
def connectives (s : Store) (h : Nat) : Except Error (List Connective) := do
  (← (← s.walk h).filterM s.isLink).mapM s.connective

/-- The written form of a node; `inner` writes the ring of a group. -/
def nodeCharsWith (s : Store) (inner : Nat → Except Error (List Char)) (h : Nat) :
    Except Error (List Char) := do
  let n ← s.node h
  match n.payload with
  | .symbol name => return signOf n.negated ++ name.toList
  | .link c => return c.spelling.toList
  | .group head => return signOf n.negated ++ '(' :: (← inner head) ++ [')']

/-- The written form of a ring with rings in it, up to the given number of levels. -/
def charsTo (s : Store) : Nat → Nat → Except Error (List Char)
  | 0, _ => .error .endlessGroup
  | levels + 1, h => do
    return (← (← s.walk h).mapM (s.nodeCharsWith (s.charsTo levels))).flatten

/-- The written form of a node. -/
def nodeText (s : Store) (h : Nat) : Except Error String :=
  (s.nodeCharsWith (s.charsTo s.size) h).map String.ofList

/-- The written form of a ring. -/
def text (s : Store) (h : Nat) : Except Error String :=
  (s.charsTo (s.size + 1) h).map String.ofList

/-- The symbol names of a node, repetitions included; `inner` lists those of the ring of a
group. -/
def nodeNamesWith (s : Store) (inner : Nat → Except Error (List String)) (h : Nat) :
    Except Error (List String) := do
  match ← s.payload h with
  | .symbol name => return [name]
  | .link _ => return []
  | .group head => inner head

/-- The symbol names of a ring with rings in it, up to the given number of levels. -/
def namesTo (s : Store) : Nat → Nat → Except Error (List String)
  | 0, _ => .error .endlessGroup
  | levels + 1, h => do
    return (← (← s.walk h).mapM (s.nodeNamesWith (s.namesTo levels))).flatten

/-- The given names, followed by the names of a ring that are not among them. -/
def symbols (s : Store) (h : Nat) (known : List String) : Except Error (List String) := do
  return (← s.namesTo (s.size + 1) h).foldl (fun known name =>
    if known.contains name then known else known ++ [name]) known

end Entail.Ring.Store
