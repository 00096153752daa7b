import Entail.Clause.Falsifying
import Entail.Clause.Search
import Entail.Engine.Verdict
import Entail.KnowledgeBase
import Entail.Text.LetterCase

/-!
# Satisfiability

The formulas of a knowledge base are brought into clauses, and the clauses are
searched for a satisfying assignment.  The query is the question itself.
-/

namespace Entail

/-- The question put to a search. -/
inductive SearchMode
  | satisfiable
  | unsatisfiable
  /-- Asks for the outcome itself. -/
  | raw
  deriving DecidableEq, Repr

namespace SearchMode

def name : SearchMode → String
  | satisfiable => "satisfiable"
  | unsatisfiable => "unsatisfiable"
  | raw => "raw"

/-- The question that a query spells, in any letter case. -/
def ofAsk (ask : String) : Except Error SearchMode :=
  match [satisfiable, unsatisfiable, raw].find? (·.name == Text.lower (Text.trim ask)) with
  | some mode => .ok mode
  | none => .error (.unsupportedAsk ask)

/-- The answer to a question. -/
def answer (mode : SearchMode) (isSatisfiable : Bool) : String :=
  match mode with
  | raw => (if isSatisfiable then satisfiable else unsatisfiable).name
  | satisfiable => verdict isSatisfiable none
  | unsatisfiable => verdict (!isSatisfiable) none

end SearchMode

/-- What a search found at last. -/
structure Satisfiability where
  /-- The literals that satisfy the clauses. -/
  path : Option (List Literal)
  clauses : Option (List Clause)
  deriving DecidableEq, Repr

namespace Satisfiability

def initial : Satisfiability := ⟨none, none⟩

/-- Decides whether the formulas of a knowledge base can be true together. -/
def decideSat (kb : KnowledgeBase) (found : Satisfiability) :
    Satisfiability × Except Error Bool :=
  match Clause.ofFormulas kb.clauses with
  | .error error => (found, .error error)
  | .ok clauses =>
    let path := search clauses []
    (⟨path, some clauses⟩, .ok path.isSome)

/-- Answers a query. -/
def prove (kb : KnowledgeBase) (ask : String) (found : Satisfiability) :
    Satisfiability × Except Error String :=
  match SearchMode.ofAsk ask with
  | .error error => (found, .error error)
  | .ok mode =>
    let (found, outcome) := decideSat kb found
    (found, outcome.map mode.answer)

/-- The literals of a path, separated by commas. -/
def pathText (path : List Literal) : String :=
  ", ".intercalate (path.map Literal.text)

/-- The report on what was found. -/
def report (found : Satisfiability) : String :=
  match found.path with
  | some path => "fixed literals: " ++ pathText path ++ "\n"
  | none => ""

end Satisfiability

end Entail
