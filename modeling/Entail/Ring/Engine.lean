import Entail.Engine.Basic
import Entail.Ring.Index
import Entail.Ring.Search

/-!
# Engines on a store

An engine that is asked about a knowledge base in a store makes the ring of the
query there, and whatever else its method needs.  Some of what it found at last
are rings, which are read when it reports.
-/

namespace Entail.Ring

open Builder

/-- Runs a builder and goes on with its answer; if it fails, what was found before is kept. -/
def Builder.attempt {α β ω : Type} (x : Builder α) (s : Store) (found : ω)
    (next : α → Store → Store × ω × Except Error β) : Store × ω × Except Error β :=
  match x s with
  | .ok a s => next a s
  | .error error s => (s, found, .error error)

/-! ### Truth tables -/

/-- What a truth table engine found at last; the query is the head of its ring. -/
structure TruthTable where
  symbols : Option (List String)
  count : Nat
  kbCount : Nat
  ask : Option Nat

namespace TruthTable

def initial : TruthTable := ⟨none, 0, 0, none⟩

/-- What was found, with the query as a formula. -/
def view (found : TruthTable) (s : Store) : Except Error Entail.TruthTable := do
  return ⟨found.symbols, found.count, found.kbCount, ← found.ask.mapM s.formula⟩

/-- Answers a query. -/
def prove (options : Options) (kb : Base) (text : String) (found : TruthTable) (s : Store) :
    Store × TruthTable × Except Error String :=
  let reading : Builder (Nat × KnowledgeBase × Formula) := do
    let head ← parseText text
    return (head, ← read kb.knowledge, ← read (·.formula head))
  reading.attempt s found fun (head, knowledge, query) s =>
    let before : Entail.TruthTable := ⟨found.symbols, found.count, found.kbCount, none⟩
    let (table, answer) := before.answer options knowledge query
    (s, ⟨table.symbols, table.count, table.kbCount, some head⟩, answer)

end TruthTable

/-! ### Chaining -/

/-- Answers a query by chaining; an engine of the given name that has no strategy fails once the
index is made. -/
def proveByChaining (name : String) (strategy : Option Strategy) (kb : Base) (text : String)
    (found : Chaining) (s : Store) : Store × Chaining × Except Error String :=
  let indexing : Builder (String × HornIndex) := do
    let head ← parseText text
    let symbol ← read fun s => (s.formula head).bind Chaining.goal
    return (symbol, ← kb.index)
  indexing.attempt s found fun (symbol, index) s =>
    (s, Chaining.answer name strategy index symbol)

/-! ### Satisfiability -/

/-- What a search found at last; the clauses are the heads of their rings. -/
structure Satisfiability where
  path : Option (List Literal)
  clauses : Option (List (Option Nat))
  deriving DecidableEq, Repr

namespace Satisfiability

def initial : Satisfiability := ⟨none, none⟩

/-- What was found, with the clauses as lists of literals. -/
def view (found : Satisfiability) (s : Store) : Except Error Entail.Satisfiability := do
  return ⟨found.path, ← found.clauses.mapM s.clauses⟩

/-- Decides whether the formulas of a knowledge base can be true together. -/
def decideSat (kb : Base) (found : Satisfiability) (s : Store) :
    Store × Satisfiability × Except Error Bool :=
  kb.addClauses.attempt s found fun clauses s =>
  (searchClauses clauses).attempt s { found with clauses := some clauses } fun path s =>
  (s, ⟨path, some clauses⟩, .ok path.isSome)

/-- Answers a query. -/
def prove (kb : Base) (ask : String) (found : Satisfiability) (s : Store) :
    Store × Satisfiability × Except Error String :=
  match SearchMode.ofAsk ask with
  | .error error => (s, found, .error error)
  | .ok mode =>
    let (s, found, outcome) := found.decideSat kb s
    (s, found, outcome.map mode.answer)

end Satisfiability

/-! ### Refutation -/

/-- What a refutation found at last. -/
structure Refutation where
  solver : Option Satisfiability
  deriving DecidableEq, Repr

namespace Refutation

def initial : Refutation := ⟨none⟩

def view (found : Refutation) (s : Store) : Except Error Entail.Refutation := do
  return ⟨← found.solver.mapM (·.view s)⟩

/-- Makes the knowledge base that is to be refuted: the negated query and copies of the clauses. -/
def counterBase (kb : Base) (text : String) : Builder Base := do
  let query ← parseText text
  let negation ← negate query
  let copied ← kb.copy
  return ⟨negation :: copied.clauses⟩

/-- Answers a query. -/
def prove (kb : Base) (text : String) (found : Refutation) (s : Store) :
    Store × Refutation × Except Error String :=
  (counterBase kb text).attempt s found fun counter s =>
    let (s, solver, outcome) := Satisfiability.initial.decideSat counter s
    (s, ⟨some solver⟩, outcome.map SearchMode.unsatisfiable.answer)

end Refutation

/-! ### Engines -/

/-- The details that an engine keeps, by method. -/
inductive Work
  | undecided
  | truthTable (found : TruthTable)
  | chaining (strategy : Option Strategy) (found : Chaining)
  | refutation (found : Refutation)
  | satisfiability (found : Satisfiability)

namespace Work

/-- The details of an engine of the same kind that has found nothing yet. -/
def kind : Work → Entail.Work
  | undecided => .undecided
  | truthTable _ => .truthTable .initial
  | chaining strategy _ => .chaining strategy .initial
  | refutation _ => .refutation .initial
  | satisfiability _ => .satisfiability .initial

/-- The details of an engine of the given kind that has found nothing yet. -/
def ofKind : Entail.Work → Work
  | .undecided => undecided
  | .truthTable _ => truthTable .initial
  | .chaining strategy _ => chaining strategy .initial
  | .refutation _ => refutation .initial
  | .satisfiability _ => satisfiability .initial

/-- The details, with what rings there are read off the store. -/
def view (s : Store) : Work → Except Error Entail.Work
  | undecided => .ok .undecided
  | truthTable found => (found.view s).map .truthTable
  | chaining strategy found => .ok (.chaining strategy found)
  | refutation found => (found.view s).map .refutation
  | satisfiability found => (found.view s).map .satisfiability

/-- Answers a query. -/
def prove (options : Options) (kb : Base) (ask : String) (work : Work) (s : Store) :
    Store × Work × Except Error String :=
  match work with
  | undecided => (s, undecided, .error (.noProcedure undecided.kind.name))
  | truthTable found =>
    let (s, found, answer) := found.prove options kb ask s
    (s, truthTable found, answer)
  | chaining strategy found =>
    let (s, found, answer) := proveByChaining work.kind.name strategy kb ask found s
    (s, chaining strategy found, answer)
  | refutation found =>
    let (s, found, answer) := found.prove kb ask s
    (s, refutation found, answer)
  | satisfiability found =>
    let (s, found, answer) := found.prove kb ask s
    (s, satisfiability found, answer)

end Work

/-- An engine and what it found at last. -/
structure Engine where
  options : Options
  watch : StopWatch
  result : Option String
  work : Work

namespace Engine

/-- An engine of the given kind that was not asked anything yet. -/
def ofKind (options : Options) (kind : Entail.Work) : Engine :=
  { options, watch := .empty, result := none, work := .ofKind kind }

/-- The engine with what rings there are read off the store. -/
def view (engine : Engine) (s : Store) : Except Error Entail.Engine := do
  return ⟨engine.options, engine.watch, engine.result, ← engine.work.view s⟩

/-- Asks an engine at the given time. -/
def prove (engine : Engine) (kb : Base) (ask : String) (now : Float) (s : Store) :
    Store × Engine × Except Error String :=
  let (s, work, answer) := engine.work.prove engine.options kb ask s
  let result := match answer with
    | .ok verdict => some verdict
    | .error _ => engine.result
  let watch := (engine.watch.tag Entail.Engine.watchLabel now).finishAll now
  (s, { engine with watch, result, work }, answer)

/-- The report of an engine, given the knowledge base that it was asked about as it is now. -/
def report (engine : Engine) (kb : Base) (s : Store) : Except Error String := do
  (← engine.view s).report (← kb.knowledge s)

/-- The report on the time that an engine took. -/
def timeReport (engine : Engine) (now : Float) : Except Error String :=
  Entail.Engine.timeReport ⟨engine.options, engine.watch, engine.result, engine.work.kind⟩ now

end Engine

end Entail.Ring
