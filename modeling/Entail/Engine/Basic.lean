import Entail.Clock.StopWatch
import Entail.Engine.Chaining
import Entail.Engine.Method
import Entail.Engine.Refutation
import Entail.Engine.TruthTable

/-!
# Engines

An engine answers queries by one method and keeps what it found at last: its
last verdict, the details of its method, and the time that it took.  A query
that fails leaves the last verdict in place.
-/

namespace Entail

/-- The details that an engine keeps, by method.  Two engines are incomplete: one without any
decision procedure, and one that chains without a strategy. -/
inductive Work
  | undecided
  | truthTable (found : TruthTable)
  | chaining (strategy : Option Strategy) (found : Chaining)
  | refutation (found : Refutation)
  | satisfiability (found : Satisfiability)

namespace Work

/-- The details of a method that has found nothing yet. -/
def ofMethod : Method → Work
  | .truthTable => truthTable .initial
  | .forwardChaining => chaining (some .forward) .initial
  | .backwardChaining => chaining (some .backward) .initial
  | .resolution => refutation .initial
  | .satisfiability => satisfiability .initial

/-- The name of the kind of engine that keeps these details. -/
def name : Work → String
  | undecided => "InferenceEngine"
  | truthTable _ => Method.truthTable.identifier
  | chaining none _ => "ChainingEngine"
  | chaining (some .forward) _ => Method.forwardChaining.identifier
  | chaining (some .backward) _ => Method.backwardChaining.identifier
  | refutation _ => Method.resolution.identifier
  | satisfiability _ => Method.satisfiability.identifier

/-- The details of an engine of the given name, or of the method that the name is a key of. -/
def ofName (name : String) : Except Error Work :=
  if name = undecided.name then .ok undecided
  else if name = (chaining none .initial).name then .ok (chaining none .initial)
  else (Method.ofKey name).map ofMethod

/-- Answers a query. -/
def prove (options : Options) (kb : KnowledgeBase) (ask : String) (work : Work) :
    Work × Except Error String :=
  match work with
  | undecided => (undecided, .error (.noProcedure undecided.name))
  | truthTable found =>
    let (found, answer) := found.prove options kb ask
    (truthTable found, answer)
  | chaining strategy found =>
    let (found, answer) := found.prove (chaining strategy found).name strategy kb ask
    (chaining strategy found, answer)
  | refutation found =>
    let (found, answer) := found.prove kb ask
    (refutation found, answer)
  | satisfiability found =>
    let (found, answer) := found.prove kb ask
    (satisfiability found, answer)

/-- The report on the details, given the knowledge base as it is now. -/
def report (options : Options) (kb : KnowledgeBase) : Work → Except Error String
  | undecided => .ok ""
  | truthTable found => found.report options kb
  | chaining _ found => .ok found.report
  | refutation found => .ok found.report
  | satisfiability found => .ok found.report

end Work

/-- An engine and what it found at last. -/
structure Engine where
  options : Options
  watch : StopWatch
  result : Option String
  work : Work

namespace Engine

/-- An engine that was not asked anything yet. -/
def ofWork (options : Options) (work : Work) : Engine :=
  { options, watch := .empty, result := none, work }

/-- The label of the time that answering takes. -/
def watchLabel : String := "inference"

/-- What an engine prints when it is asked. -/
def announcement (engine : Engine) : String :=
  if engine.options.verbose then StopWatch.announcement watchLabel else ""

/-- Asks an engine at the given time. -/
def prove (engine : Engine) (kb : KnowledgeBase) (ask : String) (now : Float) :
    Engine × Except Error String :=
  let (work, answer) := engine.work.prove engine.options kb ask
  let result := match answer with
    | .ok verdict => some verdict
    | .error _ => engine.result
  ({ engine with watch := (engine.watch.tag watchLabel now).finishAll now, result, work }, answer)

/-- The report of an engine, given the knowledge base that it was asked about as it is now. -/
def report (engine : Engine) (kb : KnowledgeBase) : Except Error String :=
  (engine.work.report engine.options kb).map fun details =>
    engine.result.getD "None" ++ "\n" ++ details

/-- The report on the time that an engine took. -/
def timeReport (engine : Engine) (now : Float) : Except Error String := do
  let lines ← engine.watch.byStart.mapM fun span =>
    return span.label ++ ": " ++ (← Duration.text (span.elapsed now)) ++ "\n"
  return Console.headline "INFERENCE RUNTIME STATISTICS" engine.options.colored ++ "\n" ++
    String.join lines

end Engine

end Entail
