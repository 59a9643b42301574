import Flowchart.Graph.Basic
import Flowchart.Scope

/-!
# Traces

Whoever runs a flowchart is told what happens, one event after the other.

* `Event` — a block was executed, with the variables and the output as they are then; a value is wanted; the
  run failed; the run is over.
* `Event.describe` — an event on one line.
* `Trace` — the events that were recorded, in order: the blocks visited, the errors, the number of completed
  runs, and the whole as a text.
-/

namespace Flowchart

/-- What a host is told during a run. -/
inductive Event where
  /-- A block was executed; the visible variables, and the whole output so far. -/
  | step (block : Block) (snapshot : Snapshot) (output : String)
  /-- A value for a variable is wanted. -/
  | inputRequired (name : String)
  /-- The run failed. -/
  | error (message : String)
  /-- The run is over. -/
  | complete
  deriving DecidableEq

namespace Event

/-- The event reports a block that was executed. -/
def isStep : Event → Bool
  | step .. => true
  | _ => false

/-- The block whose execution the event reports. -/
def visited? : Event → Option BlockId
  | step block _ _ => some block.id
  | _ => none

/-- The message of a failure. -/
def error? : Event → Option String
  | error message => some message
  | _ => none

/-- A block in a report: its number, its kind and the text on it, if there is any. -/
def describeBlock (b : Block) : String :=
  "[" ++ toString b.id ++ "] " ++ b.kind.name ++ if b.label.isEmpty then "" else " `" ++ b.label ++ "`"

/-- An event on one line. -/
def describe : Event → String
  | step block snapshot _ =>
    describeBlock block ++ if snapshot.isEmpty then "" else " | " ++ snapshot.describe
  | inputRequired name => "input required: " ++ name
  | error message => "error: " ++ message
  | complete => "complete"

end Event

/-- Recorded events, in order. -/
abbrev Trace := List Event

namespace Trace

/-- The blocks that were executed, in order. -/
def visited (t : Trace) : List BlockId := t.filterMap Event.visited?

/-- The messages of the failures, in order. -/
def errors (t : Trace) : List String := t.filterMap Event.error?

/-- The number of runs that are over. -/
def completions (t : Trace) : Nat := t.count .complete

/-- The trace as a text, one line for each event. -/
def describe (t : Trace) : String := String.join (t.map fun e => e.describe ++ "\n")

end Trace

end Flowchart
