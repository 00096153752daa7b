import Entail.Clock.Duration
import Entail.Console.Style

/-!
# Stop watches

A stop watch keeps labelled time spans in the order in which their labels came
up.  Times are readings, in seconds, of a clock that the watch is shown.
-/

namespace Entail

/-- A labelled time span, which may not have ended yet. -/
structure TimeSpan where
  label : String
  start : Float
  stop : Option Float

namespace TimeSpan

/-- The time that a span takes, up to now if it has not ended. -/
def elapsed (span : TimeSpan) (now : Float) : Float :=
  span.stop.getD now - span.start

def finished (span : TimeSpan) : Bool :=
  span.stop.isSome

/-- A line on the state of a span. -/
def report (span : TimeSpan) (now : Float) (colored : Bool) : Except Error String := do
  let label := Console.colorize span.label .headline colored
  let time ← Duration.text (span.elapsed now)
  return label ++ if span.finished then " took " ++ time ++ "\n"
    else " is running for " ++ time ++ " now...\n"

end TimeSpan

/-- The spans that were measured. -/
structure StopWatch where
  spans : List TimeSpan

namespace StopWatch

def empty : StopWatch := ⟨[]⟩

/-- Starts the span of a label, anew if there is one already. -/
def tag (watch : StopWatch) (label : String) (now : Float) : StopWatch :=
  if watch.spans.any (·.label == label) then
    ⟨watch.spans.map fun span => if span.label == label then ⟨label, now, none⟩ else span⟩
  else ⟨watch.spans ++ [⟨label, now, none⟩]⟩

/-- The line that announces the span of a label. -/
def announcement (label : String) : String :=
  label ++ "...\n"

/-- Ends all spans that have not ended yet. -/
def finishAll (watch : StopWatch) (now : Float) : StopWatch :=
  ⟨watch.spans.map fun span => { span with stop := some (span.stop.getD now) }⟩

/-- Ends the span of a label, even if it had ended before. -/
def finish (watch : StopWatch) (label : String) (now : Float) : Except Error StopWatch :=
  if watch.spans.any (·.label == label) then
    .ok ⟨watch.spans.map fun span =>
      if span.label == label then { span with stop := some now } else span⟩
  else .error (.unknownLabel label)

/-- The spans by their start; of those that started together, the one of the older label first. -/
def byStart (watch : StopWatch) : List TimeSpan :=
  watch.spans.mergeSort fun a b => a.start ≤ b.start

/-- The lines on the states of all spans. -/
def report (watch : StopWatch) (now : Float) (colored : Bool) : Except Error String :=
  (watch.byStart.mapM (TimeSpan.report · now colored)).map String.join

end StopWatch

end Entail
