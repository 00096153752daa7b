import Entail.Engine.Satisfiability

/-!
# Answers by refutation

A knowledge base entails a query if and only if its clauses cannot be true
together with the negation of the query.
-/

namespace Entail

/-- What a refutation found at last. -/
structure Refutation where
  solver : Option Satisfiability
  deriving DecidableEq, Repr

namespace Refutation

def initial : Refutation := ⟨none⟩

/-- The knowledge base that is to be refuted. -/
def counterBase (kb : KnowledgeBase) (query : Formula) : KnowledgeBase :=
  ⟨query.negate :: kb.clauses⟩

/-- Answers a query. -/
def prove (kb : KnowledgeBase) (ask : String) (found : Refutation) :
    Refutation × Except Error String :=
  match Formula.ofText ask with
  | .error error => (found, .error error)
  | .ok query =>
    let (solver, outcome) := Satisfiability.initial.decideSat (counterBase kb query)
    (⟨some solver⟩, outcome.map SearchMode.unsatisfiable.answer)

/-- The report on what was found. -/
def report (found : Refutation) : String :=
  match found.solver.bind Satisfiability.path with
  | some path => "counter model: " ++ Satisfiability.pathText path ++ "\n"
  | none => ""

end Refutation

end Entail
