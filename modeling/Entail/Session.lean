import Entail.Ring.Engine

/-!
# Sessions

A session holds numbered knowledge bases in one store, one of which is the
current one, and named engines, which are asked about the current knowledge
base.  The report of an engine is made for the knowledge base that it was asked
about last, as that is now.  A request that fails leaves the knowledge bases as
they were; what it had made in the store until then stays there.
-/

namespace Entail

open Entail.Ring

/-- A named engine, with the number of the knowledge base that it was asked about last. -/
structure Seat where
  name : String
  engine : Ring.Engine
  subject : Nat

/-- Knowledge bases in one store and the engines that are asked about them. -/
structure Session where
  store : Store
  bases : List Base
  current : Nat
  seats : List Seat

/-- What can be asked of a session. -/
inductive Request
  /-- Tells the current knowledge base a formula text. -/
  | tell (text : String)
  /-- Tells the current knowledge base one of its own clauses again. -/
  | tellAgain (number : Nat)
  /-- Reads a formula. -/
  | parse (text : String)
  /-- Adds a copy of the current knowledge base, which does not become the current one. -/
  | copy
  /-- Adds a copy of the current knowledge base in the normal form of the given name. -/
  | rephrase (mode : String)
  /-- Makes the knowledge base of a number the current one. -/
  | use (number : Nat)
  /-- Makes the Horn index of the current knowledge base. -/
  | index
  /-- Names a new engine of the given kind; another one of this name is given up. -/
  | engine (name : String) (options : Options) (kind : Work)
  /-- Asks an engine about the current knowledge base. -/
  | prove (name : String) (ask : String) (now : Float)
  /-- Puts a question about the current knowledge base to an engine made for that; its last verdict
  stays in place. -/
  | question (name : String) (ask : String)
  /-- Has an engine made for that decide whether the current knowledge base is satisfiable; its last
  verdict stays in place. -/
  | decide (name : String)

/-- What a session answers. -/
inductive Reply
  | formula (head : Nat)
  | base (number : Nat) (kb : Base)
  | index (index : HornIndex)
  | engine (name : String)
  | verdict (text : String)
  | outcome (isSatisfiable : Bool)

namespace Session

/-- The session whose only knowledge base was told the clauses of a text. -/
def ofText (tell : String) : Except Error Session :=
  match Base.ofText tell .empty with
  | .ok kb store => .ok ⟨store, [kb], 0, []⟩
  | .error error _ => .error error

/-- The knowledge base of a number. -/
def base (s : Session) (number : Nat) : Base :=
  s.bases.getD number .empty

/-- The current knowledge base. -/
def kb (s : Session) : Base :=
  s.base s.current

/-- The formulas of the current knowledge base. -/
def knowledge (s : Session) : Except Error KnowledgeBase :=
  s.kb.knowledge s.store

/-- Runs a builder on the store, and goes on with its answer. -/
def build {α : Type} (s : Session) (x : Builder α) (next : Session → α → Session × Reply) :
    Session × Except Error Reply :=
  match x s.store with
  | .ok a store =>
    let (s, reply) := next { s with store } a
    (s, .ok reply)
  | .error error store => ({ s with store }, .error error)

/-- Tells the current knowledge base the formula of a ring. -/
def tellHead (s : Session) (head : Nat) : Session × Reply :=
  ({ s with bases := s.bases.set s.current (s.kb.tell head) }, .formula head)

/-- Adds a knowledge base; its number is the old number of knowledge bases. -/
def addBase (s : Session) (kb : Base) : Session × Reply :=
  ({ s with bases := s.bases ++ [kb] }, .base s.bases.length kb)

/-- The engine of a name. -/
def seat (s : Session) (name : String) : Except Error Seat :=
  match s.seats.find? (·.name == name) with
  | some seat => .ok seat
  | none => .error (.unknownLabel name)

/-- Names an engine; another one of this name is given up. -/
def setSeat (s : Session) (seat : Seat) : Session :=
  { s with seats := seat :: s.seats.filter (·.name != seat.name) }

/-- Asks an engine about the current knowledge base. -/
def prove (s : Session) (name ask : String) (now : Float) : Session × Except Error Reply :=
  match s.seat name with
  | .error error => (s, .error error)
  | .ok seat =>
    let (store, engine, answer) := seat.engine.prove s.kb ask now s.store
    ({ s with store }.setSeat ⟨name, engine, s.current⟩, answer.map .verdict)

/-- Has an engine made for that search the current knowledge base. -/
def searchWith (s : Session) (name : String)
    (run : Base → Ring.Satisfiability → Store → Store × Ring.Satisfiability × Except Error Reply) :
    Session × Except Error Reply :=
  match s.seat name with
  | .error error => (s, .error error)
  | .ok seat =>
    match seat.engine.work with
    | .satisfiability found =>
      let (store, found, answer) := run s.kb found s.store
      let engine := { seat.engine with work := .satisfiability found }
      ({ s with store }.setSeat { seat with engine }, answer)
    | _ => (s, .error .otherPayload)

/-- Carries out a request. -/
def perform (s : Session) : Request → Session × Except Error Reply
  | .tell text => s.build (Builder.parseText text) tellHead
  | .tellAgain number =>
    match s.kb.clauses[number]? with
    | some head => (s.tellHead head).map id .ok
    | none => (s, .error .outOfRange)
  | .parse text => s.build (Builder.parseText text) fun s head => (s, .formula head)
  | .copy => s.build s.kb.copy addBase
  | .rephrase mode => s.build (s.kb.rephrase mode) addBase
  | .use number =>
    match s.bases[number]? with
    | some kb => ({ s with current := number }, .ok (.base number kb))
    | none => (s, .error .outOfRange)
  | .index => s.build s.kb.index fun s index => (s, .index index)
  | .engine name options kind =>
    (s.setSeat ⟨name, .ofKind options kind, s.current⟩, .ok (.engine kind.name))
  | .prove name ask now => s.prove name ask now
  | .question name ask => s.searchWith name fun kb found store =>
    let (store, found, answer) := found.prove kb ask store
    (store, found, answer.map .verdict)
  | .decide name => s.searchWith name fun kb found store =>
    let (store, found, answer) := found.decideSat kb store
    (store, found, answer.map .outcome)

/-- Carries out requests one after the other, whether they fail or not. -/
def run (s : Session) (requests : List Request) : Session :=
  requests.foldl (fun s request => (s.perform request).1) s

/-- The number of models of the current knowledge base, counted by a truth table engine. -/
def countModels (s : Session) (name : String) : Except Error Nat := do
  let seat ← s.seat name
  match seat.engine.work with
  | .truthTable _ => Entail.TruthTable.countModels seat.engine.options (← s.knowledge)
  | _ => throw .otherPayload

/-- The report of an engine. -/
def report (s : Session) (name : String) : Except Error String := do
  let seat ← s.seat name
  seat.engine.report (s.base seat.subject) s.store

/-- The report on the time that an engine took. -/
def timeReport (s : Session) (name : String) (now : Float) : Except Error String :=
  (s.seat name).bind fun seat => seat.engine.timeReport now

end Session

end Entail
