import Entail.Error
import Entail.Text.LetterCase

/-!
# Methods of inference

The methods on offer.  A method is chosen by its identifier, by its
description, or by its selector in any letter case.
-/

namespace Entail

/-- A way to answer a query. -/
inductive Method
  | truthTable
  | forwardChaining
  | backwardChaining
  | resolution
  | satisfiability
  deriving DecidableEq, Repr

namespace Method

def all : List Method :=
  [truthTable, forwardChaining, backwardChaining, resolution, satisfiability]

def identifier : Method → String
  | truthTable => "TruthTable"
  | forwardChaining => "ForwardChaining"
  | backwardChaining => "BackwardChaining"
  | resolution => "ResolutionSolver"
  | satisfiability => "DPLLSolver"

def selector : Method → String
  | truthTable => "tt"
  | forwardChaining => "fc"
  | backwardChaining => "bc"
  | resolution => "rs"
  | satisfiability => "dpll"

def description : Method → String
  | truthTable => "Truth table"
  | forwardChaining => "Forward chaining"
  | backwardChaining => "Backward chaining"
  | resolution => "Resolution (DPLL refutation)"
  | satisfiability => "DPLL satisfiability"

/-- The method of the given identifier. -/
def ofIdentifier (name : String) : Except Error Method :=
  match all.find? (·.identifier == name) with
  | some method => .ok method
  | none => .error (.unknownMember name)

/-- The method that a key chooses; identifiers go before descriptions, and these before
selectors. -/
def ofKey (key : String) : Except Error Method :=
  match all.find? (·.identifier == key) <|> all.find? (·.description == key) <|>
      all.find? (·.selector == Text.lower key) with
  | some method => .ok method
  | none => .error (.unknownMethod key)

end Method

end Entail
