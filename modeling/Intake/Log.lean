/-
# The log

A log keeps the events that weigh at least as much as its level, in the order in which they came:
what `LogWrite` puts out, line by line.
-/
import Intake.Log.Event

namespace Intake

/-- The events kept so far, the least level that is kept, and a mark that the log was set up. -/
structure Log where
  level : Level
  initialized : Bool
  events : List Event
  deriving DecidableEq, Repr

namespace Log

/-- A log that keeps everything. -/
def empty : Log := ⟨.debug, false, []⟩

instance : Inhabited Log := ⟨empty⟩

/-- Keeps an event unless it weighs less than the log's level. -/
def record (l : Log) (e : Event) : Log :=
  if e.level.rank < l.level.rank then l else { l with events := l.events ++ [e] }

/-- Keeps several events, in order. -/
def recordAll (l : Log) (es : List Event) : Log := es.foldl record l

/-- Changes which events are kept from now on. -/
def setLevel (l : Log) (level : Level) : Log := { l with level }

/-- Marks the log as set up. -/
def start (l : Log) : Log := { l with initialized := true }

/-- Takes the mark back. -/
def stop (l : Log) : Log := { l with initialized := false }

/-- Forgets the events kept so far. -/
def clear (l : Log) : Log := { l with events := [] }

/-! ## 1. What recording changes -/

/-- An event that weighs enough comes behind the others. -/
theorem record_of_ge {l : Log} {e : Event} (h : ¬ e.level.rank < l.level.rank) :
    l.record e = { l with events := l.events ++ [e] } :=
  if_neg h

end Log

end Intake
