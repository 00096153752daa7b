import Entail.Horn.Forward

/-!
# Backward chaining

A symbol is reached if it is a fact, or if all requirements of one of its
alternatives can be reached.  The rule of a symbol is used up when the symbol
is first tried, so that cyclic rules come to an end; a symbol that was reached
becomes a fact.
-/

namespace Entail

/-- The state of a backward search: what is left of the index, and the symbols tried so far, the
latest first. -/
structure BackwardState where
  index : HornIndex
  path : List String
  deriving DecidableEq, Repr

namespace BackwardState

/-- Puts a symbol that is tried for the first time on the path. -/
def visit (s : BackwardState) (name : String) : BackwardState :=
  if s.path.contains name then s else { s with path := name :: s.path }

end BackwardState

/-- Tries the elements of a list until one succeeds. -/
def anyFrom {α σ : Type} (attempt : α → σ → Bool × σ) : List α → σ → Bool × σ
  | [], s => (false, s)
  | x :: rest, s =>
    match attempt x s with
    | (true, s) => (true, s)
    | (false, s) => anyFrom attempt rest s

/-- Tries the elements of a list until one fails. -/
def allFrom {α σ : Type} (attempt : α → σ → Bool × σ) : List α → σ → Bool × σ
  | [], s => (true, s)
  | x :: rest, s =>
    match attempt x s with
    | (true, s) => allFrom attempt rest s
    | (false, s) => (false, s)

/-- Tries to reach a symbol with at most `depth` rules in use at a time. -/
def backwardTo : Nat → String → BackwardState → Bool × BackwardState
  | 0, name, s =>
    let s := s.visit name
    (s.index.isFact name, s)
  | depth + 1, name, s =>
    let s := s.visit name
    if s.index.isFact name then (true, s)
    else
      match s.index.alternatives? name with
      | none => (false, s)
      | some alternatives =>
        let s := { s with index := s.index.eraseRule name }
        match anyFrom (allFrom (backwardTo depth)) alternatives s with
        | (true, s) => (true, { s with index := s.index.addFact name })
        | (false, s) => (false, s)

/-- Chains backward from the asked symbol to the facts of an index.  As every rule in use has been
used up, the number of rules bounds the depth. -/
def HornIndex.chainBackward (index : HornIndex) (goal : String) : Chain :=
  let result := backwardTo index.rules.length goal ⟨index, []⟩
  ⟨result.1, result.2.path⟩

end Entail
