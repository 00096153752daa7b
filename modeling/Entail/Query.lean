import Entail.Console.Grid
import Entail.Engine.Basic
import Entail.Json.Display

/-!
# Queries

A query is made up of settings: what to tell, what to ask, by which method, and
further ones for the engine.  A verbose query reports on every step.
-/

namespace Entail

open Json

/-- A query and what it is made up of. -/
structure Query where
  settings : Entries
  verbose : Value
  /-- The knowledge base to ask, if it is not to be made from the settings. -/
  base : Option KnowledgeBase

/-- What a query printed, and its answer. -/
structure Outcome where
  out : String
  answer : Except Error String

namespace Outcome

/-- What comes next, given that a text was printed before. -/
def after (out : String) (next : Outcome) : Outcome :=
  ⟨out ++ next.out, next.answer⟩

/-- What comes next on a result, unless that is an error, after which nothing is printed. -/
def attempt {α : Type} (result : Except Error α) (next : α → Outcome) : Outcome :=
  match result with
  | .ok x => next x
  | .error error => ⟨"", .error error⟩

end Outcome

namespace Query

/-- The names that further settings cannot have. -/
def takenKeys : List RawText := ["self", "config", "verbose"]

/-- A query with default settings, further ones that take their place, and a choice to be verbose
or not, which the default settings decide if it is not made. -/
def ofSettings (defaults : Entries) (verbose : Value) (further : Entries)
    (base : Option KnowledgeBase) : Except Error Query :=
  if takenKeys.any fun key => (lookup key further).isSome then .error .unsuitable
  else .ok
    { settings := assignAll further defaults
      verbose :=
        match verbose with
        | .null => (lookup "verbose" defaults).getD (.boolean false)
        | choice => choice
      base }

def setting (q : Query) (key : RawText) (default : Value) : Value :=
  (lookup key q.settings).getD default

/-- The settings that are not passed on to the engine. -/
def ownKeys : List RawText := ["tell", "ask", "method", "debug"]

/-- The settings that are passed on to the engine. -/
def parameters (q : Query) : Entries :=
  assignAll
    [("verbose", q.verbose), ("strict", q.setting "strict" (.boolean false)),
     ("max_symbols", q.setting "max_symbols" (.integer maxTableSymbols))]
    (eraseKeys ownKeys q.settings)

/-! ### Options -/

/-- The largest number of characters that are shown of a limit that cannot be read. -/
def maxShownLimit : Nat := 200

/-- The number of symbols that a setting limits a truth table to. -/
def symbolLimit : Value → Except Error Int
  | .integer n => .ok n
  | .boolean b => .ok (if b then 1 else 0)
  | .float x =>
    if x.isNaN then .error .notANumber
    else if x.isInf then .error .tooLarge
    else .ok (Duration.truncate x)
  | .text s =>
    match Decimal.readWhole? s.toString with
    | some limit => limit
    | none => .error (.unreadableLimit (String.ofList ((quoted s).toList.take maxShownLimit)))
  | _ => .error .unsuitable

/-- Whether a setting turns colours on, as all values but `false` do. -/
def isColored : Value → Bool
  | .boolean b => b
  | _ => true

/-- The options of an engine with the given settings. -/
def optionsOf (parameters : Entries) : Options :=
  { strict := ((lookup "strict" parameters).getD .null).truthy
    maxSymbols := symbolLimit ((lookup "max_symbols" parameters).getD (.integer maxTableSymbols))
    verbose := ((lookup "verbose" parameters).getD .null).truthy
    colored := isColored ((lookup "color" parameters).getD (.boolean false)) }

/-- The key that no setting of an engine can have. -/
def engineKey : RawText := "self"

/-- The engine with the given settings that has found nothing yet. -/
def engineOf (work : Work) (parameters : Entries) : Except Error Engine :=
  if (lookup engineKey parameters).isSome then .error .unsuitable
  else .ok (Engine.ofWork (optionsOf parameters) work)

/-- The key that chooses a method; lists and records cannot be keys. -/
def methodKey : Value → Except Error String
  | .list _ | .record _ => .error .unsuitable
  | key => .ok key.display

/-! ### The table of parameters -/

/-- The cell of a value; lists and records are displayed as texts. -/
def cellOf : Value → Console.Cell
  | .null => .missing
  | .boolean b => .boolean b
  | .integer n => .whole n
  | .float x => .number x
  | value => .text value.display

/-- The table of parameters, by name. -/
def parameterTable (parameters : Entries) : Except Error String :=
  let rows := parameters.map fun entry => (entry.1.toString, cellOf entry.2)
  let sorted := rows.mergeSort fun a b => a.1 ≤ b.1
  Console.Grid.write
    ⟨["Parameter:", "Value:"], sorted.map fun row => [Console.Cell.text row.1, row.2]⟩

/-! ### Running -/

/-- The names of the levels of detail that a log can be kept at. -/
def levelNames : List String := ["DEBUG", "INFO", "WARNING", "ERROR", "CRITICAL"]

/-- Checks the level of detail that the log is to be kept at. -/
def checkLevel (level : Value) : Except Error Unit :=
  let name := Text.upper level.display
  if levelNames.contains name then .ok () else .error (.unknownLevel name)

/-- The knowledge base that was told a setting. -/
def baseOf : Value → Except Error KnowledgeBase
  | .text tell => KnowledgeBase.ofText tell.toString
  | .null => .ok .empty
  | _ => .error .unsuitable

/-- The knowledge base that a query is about. -/
def knowledgeBase (q : Query) : Except Error KnowledgeBase :=
  match q.base with
  | some kb => .ok kb
  | none => baseOf (q.setting "tell" .null)

/-- What an engine is asked; the question put to a satisfiability search is a text, any other one
is to be read as a formula. -/
def askOf (ask : Value) (engine : Engine) : Except Error String :=
  match ask with
  | .text ask => .ok ask.toString
  | _ =>
    match engine.work with
    | .satisfiability _ => .error .notAText
    | _ => .error .unsuitable

/-- Checks that something is told and something is asked. -/
def checkParts (q : Query) : Except Error Unit :=
  if q.base.isNone && (q.setting "tell" .null).isNull then .error .noKnowledgeBase
  else if (q.setting "ask" .null).isNull then .error .noQuery
  else .ok ()

/-- A headline between empty lines. -/
def heading (q : Query) (title : String) : String :=
  "\n" ++ Console.headline title (isColored (q.setting "color" (.boolean false))) ++ "\n\n"

/-- The lines that a verbose query prints, and none for any other. -/
def whenVerbose (q : Query) (text : Except Error String) : Except Error String :=
  if q.verbose.truthy then text else .ok ""

/-- The engine that answers a query. -/
def engine (q : Query) : Except Error Engine := do
  checkLevel (q.setting "debug" (.text "WARNING"))
  let method ← Method.ofKey (← methodKey (q.setting "method" (.text "tt")))
  engineOf (Work.ofMethod method) q.parameters

/-- The report on an answered query. -/
def report (q : Query) (kb : KnowledgeBase) (engine : Engine) (watch : StopWatch) (now : Float) :
    Except Error String := do
  let results ← engine.report kb
  let time ← engine.timeReport now
  let steps ← (watch.finishAll now).report now (isColored (q.setting "color" (.boolean false)))
  return q.heading "INFERENCE RESULTS" ++ results ++ "\n" ++ time ++ "\n" ++ steps

/-- Answers a query at the given time by an engine. -/
def runWith (q : Query) (kb : KnowledgeBase) (engine : Engine) (watch : StopWatch) (now : Float) :
    Outcome :=
  .attempt (q.whenVerbose (.ok (q.heading "KNOWLEDGE BASE" ++ kb.listing))) fun listing =>
  .after (listing ++ engine.announcement) <|
  .attempt (askOf (q.setting "ask" .null) engine) fun ask =>
  let (engine, answer) := engine.prove kb ask now
  .attempt answer fun answer =>
  .attempt (q.whenVerbose (q.report kb engine watch now)) fun report =>
  ⟨report, .ok answer⟩

/-- Answers a query at the given time. -/
def run (q : Query) (now : Float) : Outcome :=
  let watch := StopWatch.empty.tag Engine.watchLabel now
  .attempt (q.whenVerbose (.ok (StopWatch.announcement Engine.watchLabel))) fun started =>
  .after started <|
  .attempt (q.checkParts.bind fun _ => q.knowledgeBase) fun kb =>
  .attempt (q.whenVerbose ((parameterTable q.parameters).map (· ++ "\n"))) fun table =>
  .after table <|
  .attempt q.engine fun engine => q.runWith kb engine watch now

end Query

end Entail
