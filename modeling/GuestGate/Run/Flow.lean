/-!
# The flow of a run

Events that an instrumented guest reports, in a log of bounded length.  The
last exception is kept even when the log is full.
-/

namespace GuestGate

inductive FlowEvent
  /-- A line was reached. -/
  | line (line : Nat)
  /-- An expression had a value. -/
  | value (line : Nat) (expression value : String)
  /-- An exception was raised, on line zero when the line is not known. -/
  | exception (line : Nat) (description : String)
deriving DecidableEq, Repr

namespace FlowEvent

def lineNumber : FlowEvent → Nat
  | line n | value n _ _ | exception n _ => n

def isException : FlowEvent → Bool
  | exception _ _ => true
  | _ => false

def lineReached? : FlowEvent → Option Nat
  | line n => some n
  | _ => none

def render : FlowEvent → String
  | line n => "line " ++ toString n
  | value n expression shown => "line " ++ toString n ++ ": " ++ expression ++ " = " ++ shown
  | exception n description => "line " ++ toString n ++ ": exception: " ++ description

end FlowEvent

/-- A log of at most `limit` events. -/
structure FlowLog where
  limit : Nat
  events : Array FlowEvent := #[]
  /-- How many events found no room. -/
  dropped : Nat := 0
  /-- The line reached last, zero before the first. -/
  currentLine : Nat := 0
deriving DecidableEq, Repr

namespace FlowLog

def lineAfter (log : FlowLog) (event : FlowEvent) : Nat :=
  event.lineReached?.getD log.currentLine

/-- The last event of a full log gives way to an exception. -/
def replaceLast (events : Array FlowEvent) (event : FlowEvent) : Array FlowEvent :=
  if events.isEmpty then events else events.pop.push event

/-- Record an event.  One that finds no room is counted; if it is an exception
it takes the last place. -/
def record (log : FlowLog) (event : FlowEvent) : FlowLog :=
  if log.events.size < log.limit then
    { log with events := log.events.push event, currentLine := log.lineAfter event }
  else
    { log with
      events := if event.isException then replaceLast log.events event else log.events
      dropped := log.dropped + 1
      currentLine := log.lineAfter event }

/-- Record an exception on the current line. -/
def recordFault (log : FlowLog) (description : String) : FlowLog :=
  log.record (.exception log.currentLine description)

end FlowLog

end GuestGate
