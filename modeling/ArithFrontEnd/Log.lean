/-!
# Log events

What a computation reports on its way is data: an event has a level and a message, and a run's log
is the list of its events in order. The computations themselves keep no log; each has a companion
that tells the events of a run from the same states.

## Main definitions

* `Log.Level`, `Log.Level.includes` — how severe an event is, and what a threshold lets through.
* `Log.Event`, `Log.atLevel` — an event, and the part of a log that a threshold lets through.
-/

namespace ArithFrontEnd.Log

/-- How severe an event is, the most severe level first. -/
inductive Level
  /-- The input is at fault. -/
  | error
  /-- The result may surprise. -/
  | warn
  /-- A result of interest to a user. -/
  | info
  /-- A decision of an algorithm. -/
  | debug
  /-- A single step of an algorithm. -/
  | trace
  deriving DecidableEq, Repr

/-- The position of a level, the most severe one first. -/
def Level.rank : Level → Nat
  | .error => 0
  | .warn => 1
  | .info => 2
  | .debug => 3
  | .trace => 4

/-- A log kept at the level `threshold` holds the events of the level `level`. -/
def Level.includes (threshold level : Level) : Bool :=
  level.rank ≤ threshold.rank

/-- The tag in front of an event's message. -/
def Level.tag : Level → String
  | .error => "ERROR"
  | .warn => "WARN"
  | .info => "INFO"
  | .debug => "DEBUG"
  | .trace => "TRACE"

/-- An event: its level and what it says. -/
structure Event where
  /-- How severe the event is. -/
  level : Level
  /-- What the event says. -/
  message : String
  deriving DecidableEq, Repr

/-- The line of the log that shows an event. -/
def Event.line (e : Event) : String :=
  e.level.tag ++ " " ++ e.message

/-- The part of a log that is kept at a threshold. -/
def atLevel (threshold : Level) (events : List Event) : List Event :=
  events.filter fun e => threshold.includes e.level

/-- The most detailed log keeps every event. -/
@[simp] theorem atLevel_trace (events : List Event) : atLevel .trace events = events := by
  simp only [atLevel, List.filter_eq_self]
  intro e _
  cases e.level <;> rfl

end ArithFrontEnd.Log
