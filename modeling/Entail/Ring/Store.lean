import Entail.Error
import Entail.Formula.Basic

/-!
# Stores of ring nodes

A ring is a circular, doubly linked row of nodes.  The nodes of all rings live
in one store and are named by handles, the numbers in which they were created;
a handle stays valid forever, only the links of its node change.  A group node
owns the ring of the handle that it holds.  A node without links belongs to no
ring at all.
-/

namespace Entail.Ring

/-- What a node holds. -/
inductive Payload
  | symbol (name : String)
  | group (head : Nat)
  | link (connective : Connective)
  deriving DecidableEq, Repr

/-- A node and the handles of its neighbours. -/
structure Node where
  payload : Payload
  negated : Bool
  prev : Option Nat
  next : Option Nat
  deriving DecidableEq, Repr

/-- The nodes created so far, in order of their handles. -/
structure Store where
  nodes : List Node
  deriving DecidableEq, Repr

namespace Store

/-- The store without nodes. -/
def empty : Store := ⟨[]⟩

def size (s : Store) : Nat :=
  s.nodes.length

/-- The handle that a link holds. -/
def required : Option Nat → Except Error Nat
  | some h => .ok h
  | none => .error .unlinked

/-- The node of a handle. -/
def node (s : Store) (h : Nat) : Except Error Node :=
  match s.nodes[h]? with
  | some n => .ok n
  | none => .error .outOfRange

/-- The store with the node of a handle changed. -/
def modify (s : Store) (h : Nat) (f : Node → Node) : Except Error Store :=
  (s.node h).map fun n => ⟨s.nodes.set h (f n)⟩

/-- Adds a node that is a ring by itself; its handle is the old size of the store. -/
def add (s : Store) (payload : Payload) (negated : Bool) : Store :=
  ⟨s.nodes ++ [⟨payload, negated, some s.size, some s.size⟩]⟩

/-! ### Reading nodes -/

def payload (s : Store) (h : Nat) : Except Error Payload :=
  (s.node h).map Node.payload

def negated (s : Store) (h : Nat) : Except Error Bool :=
  (s.node h).map Node.negated

def next (s : Store) (h : Nat) : Except Error (Option Nat) :=
  (s.node h).map Node.next

def prev (s : Store) (h : Nat) : Except Error (Option Nat) :=
  (s.node h).map Node.prev

/-- The name that a symbol node holds. -/
def name (s : Store) (h : Nat) : Except Error String := do
  match ← s.payload h with
  | .symbol name => return name
  | _ => throw .otherPayload

/-- The connective that a connective node holds. -/
def connective (s : Store) (h : Nat) : Except Error Connective := do
  match ← s.payload h with
  | .link c => return c
  | _ => throw .otherPayload

/-- The head of the ring that a group node owns. -/
def content (s : Store) (h : Nat) : Except Error Nat := do
  match ← s.payload h with
  | .group head => return head
  | _ => throw .otherPayload

def isSymbol (s : Store) (h : Nat) : Except Error Bool := do
  match ← s.payload h with
  | .symbol _ => return true
  | _ => return false

def isGroup (s : Store) (h : Nat) : Except Error Bool := do
  match ← s.payload h with
  | .group _ => return true
  | _ => return false

def isLink (s : Store) (h : Nat) : Except Error Bool := do
  match ← s.payload h with
  | .link _ => return true
  | _ => return false

/-- Whether a node is its own neighbour. -/
def isSingle (s : Store) (h : Nat) : Except Error Bool :=
  (s.next h).map (· == some h)

/-- The truth value of a constant symbol node, its negation taken into account. -/
def truth (s : Store) (h : Nat) : Except Error (Option Bool) := do
  match (← s.node h) with
  | ⟨.symbol name, negated, _, _⟩ => return (constantValue? name).map (· != negated)
  | _ => return none

/-! ### Changing nodes in place -/

def setPayload (s : Store) (h : Nat) (payload : Payload) : Except Error Store :=
  s.modify h fun n => { n with payload }

def setNegated (s : Store) (h : Nat) (negated : Bool) : Except Error Store :=
  s.modify h fun n => { n with negated }

def toggle (s : Store) (h : Nat) : Except Error Store :=
  s.modify h fun n => { n with negated := !n.negated }

end Store

end Entail.Ring
