import Entail.Clause.Falsifying
import Entail.Clause.Search
import Entail.Ring.Base

/-!
# Searching among clauses in a store

A clause that holds literals is a ring of disjunctions; the empty clause has no
ring.  Rings of clauses are shared between the branches of a search, so that a
clause that loses a literal is copied before.
-/

namespace Entail.Ring

/-- The slot of a literal. -/
def slotOf (l : Literal) : Slot Nat :=
  .symbol l.negated l.name

/-- The literals of a ring of disjunctions. -/
def Store.literals (s : Store) (head : Nat) : Except Error Clause := do
  (← s.operands head).mapM fun h => return ⟨← s.name h, ← s.negated h⟩

/-- The literals of the given clauses, none for those without a ring. -/
def Store.clauses (s : Store) (heads : List (Option Nat)) : Except Error (List Clause) :=
  heads.mapM fun
    | none => .ok []
    | some head => s.literals head

/-- The first of the given clauses that is a node by itself. -/
def Store.unit? (s : Store) (clauses : List (Option Nat)) : Except Error (Option Nat) :=
  (clauses.filterMap id).findM? s.isSingle

namespace Builder

/-! ### Clauses of formulas -/

/-- Makes the ring of a clause. -/
def addClause : Clause → Builder (Option Nat)
  | [] => return none
  | first :: rest => return some (← addRow ⟨slotOf first, rest.map fun l => (.disj, slotOf l)⟩)

/-- Makes the rings of the clauses of a formula. -/
def addClauses (head : Nat) : Builder (List (Option Nat)) := do
  (← read fun s => (s.formula head).bind Clause.ofFormula).mapM addClause

/-! ### Assuming literals -/

/-- Takes an operand node out of a ring if it is of the given symbol; nothing is left of a ring
that consists of this node only. -/
def stripOperand (name : String) (ring : Option Nat) (h : Nat) : Builder (Option Nat) := do
  match ring with
  | none => return none
  | some head =>
    if (← read (·.name h)) != name then return some head
    else if ← read (·.isSingle h) then return none
    else return some (← takeOperand head h)

/-- A copy of a clause without its literals of the given symbol. -/
def strip (name : String) (head : Nat) : Builder (Option Nat) := do
  let copied ← copy head
  (← read (·.operands copied)).foldlM (stripOperand name) (some copied)

/-- What is left of a clause once a literal is true: nothing if the clause holds the literal, and
the clause itself if it has no literal of this symbol. -/
def assumeIn (l : Literal) : Option Nat → Builder (List (Option Nat))
  | none => return [none]
  | some head => do
    let literals ← read (·.literals head)
    if literals.all (·.name != l.name) then return [some head]
    else if literals.contains l then return []
    else return [← strip l.name head]

/-- The clauses that are left to satisfy once a literal is true. -/
def assumeAll (l : Literal) (clauses : List (Option Nat)) : Builder (List (Option Nat)) := do
  return (← clauses.mapM (assumeIn l)).flatten

/-! ### Searching -/

/-- Searches for literals that satisfy all clauses, in at most the given number of steps on a
branch, and appends them to the path. -/
def searchTo : Nat → List (Option Nat) → List Literal → Builder (Option (List Literal))
  | 0, _, _ => throw .endlessGroup
  | bound + 1, clauses, path => do
    if clauses.any Option.isNone then return none
    match ← read (·.unit? clauses) with
    | some unit =>
      let l : Literal := ⟨← read (·.name unit), ← read (·.negated unit)⟩
      searchTo bound (← assumeAll l clauses) (path ++ [l])
    | none =>
      match clauses.filterMap id with
      | [] => return some path
      | first :: _ =>
        let name ← read (·.name first)
        let positive ← add (.symbol name) false
        match ← searchTo bound (clauses ++ [some positive]) path with
        | some found => return some found
        | none =>
          let negative ← add (.symbol name) true
          searchTo bound (clauses ++ [some negative]) path

/-- Searches for literals that satisfy all clauses. -/
def searchClauses (clauses : List (Option Nat)) : Builder (Option (List Literal)) := do
  searchTo (searchBound (← read (·.clauses clauses)) + 1) clauses []

end Builder

/-- Makes the rings of the clauses of all formulas of a knowledge base, in order. -/
def Base.addClauses (kb : Base) : Builder (List (Option Nat)) := do
  return (← kb.clauses.mapM Builder.addClauses).flatten

end Entail.Ring
