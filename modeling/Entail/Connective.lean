/-!
# Connectives

The four binary connectives of propositional logic, their spellings and their
truth functions.  Conjunction and disjunction are each other's duals; the two
arrows have no dual.
-/

namespace Entail

/-- A binary connective. -/
inductive Connective
  | conj
  | disj
  | impl
  | iff
  deriving DecidableEq, Repr

namespace Connective

/-- The connectives, from the one that binds strongest to the one that binds weakest. -/
def byStrength : List Connective := [conj, disj, impl, iff]

/-- How a connective is written. -/
def spelling : Connective → String
  | conj => "&"
  | disj => "||"
  | impl => "=>"
  | iff => "<=>"

/-- The connective with the given spelling. -/
def ofSpelling? (text : String) : Option Connective :=
  byStrength.find? (fun c => c.spelling = text)

/-- The truth function of a connective. -/
def apply : Connective → Bool → Bool → Bool
  | conj, a, b => a && b
  | disj, a, b => a || b
  | impl, a, b => !a || b
  | iff, a, b => a == b

/-- The truth function applied row by row to two columns of a truth table. -/
def applyColumns (c : Connective) (a b : List Bool) : List Bool :=
  List.zipWith c.apply a b

/-- The De Morgan dual, which only conjunction and disjunction have. -/
def dual? : Connective → Option Connective
  | conj => some disj
  | disj => some conj
  | impl => none
  | iff => none

/-- The truth value that decides a conjunction or disjunction on its own. -/
def dominant : Connective → Bool
  | conj => false
  | _ => true

/-- Conjunction and disjunction, which are associative, commutative and idempotent. -/
def isJunction : Connective → Bool
  | conj | disj => true
  | impl | iff => false

/-- The arrows, which elimination replaces by conjunction, disjunction and negation. -/
def isArrow (c : Connective) : Bool :=
  !c.isJunction

@[simp]
theorem ofSpelling?_spelling (c : Connective) : ofSpelling? c.spelling = some c := by
  cases c <;> rfl

end Connective

end Entail
