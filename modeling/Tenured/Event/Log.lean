import Tenured.Event.Journal
import Tenured.Text.Timestamp

/-!
# The event log

The event log keeps the most recent events, up to a limit, and passes each event that it accepts on
to the journal as a line. It accepts an event if it is enabled and the event is no more verbose than
its settings say. An event is kept with the moment at which it was offered, in milliseconds since
the start of 1970.
-/

namespace Tenured

/-- What an event log keeps, and how it writes it. -/
structure EventLog.Settings where
  /-- The most verbose level that is accepted. -/
  level : Level := .debug
  /-- Whether events are passed on to the journal. -/
  forward : Bool := true
  /-- Whether events are written as JSON records. -/
  json : Bool := false
  /-- Whether the time stands before an event. -/
  timestamps : Bool := true
  /-- The greatest number of events that are kept. -/
  limit : Nat := 1024
deriving Inhabited

/-- The recent events. -/
structure EventLog where
  settings : EventLog.Settings := {}
  enabled : Bool := true
  /-- The events that are kept, with their moments, the newest first. -/
  recent : List (Int × Event) := []
deriving Inhabited

namespace EventLog

/-- The events that are kept, with their moments, the oldest first. -/
def events (l : EventLog) : List (Int × Event) :=
  l.recent.reverse

/-- The number of events that are kept. -/
def count (l : EventLog) : Nat :=
  l.recent.length

/-- Whether an event is accepted. -/
def accepts (l : EventLog) (e : Event) : Bool :=
  l.enabled && l.settings.level.admits e.level

/-- The line for an event at a moment. -/
def Settings.render (s : Settings) (millis : Int) (e : Event) : String :=
  let body := if s.json then e.toJson else e.human
  if s.timestamps then "[" ++ Text.timestamp millis ++ "] " ++ body else body

/-- The log after an event was offered to it at a moment. -/
def record (l : EventLog) (offered : Int × Event) : EventLog :=
  if l.accepts offered.2 then { l with recent := (offered :: l.recent).take l.settings.limit }
  else l

/-- The journal after an event was offered to the log at a moment. -/
def forward (l : EventLog) (millis : Int) (e : Event) (j : Journal) : Journal :=
  if l.accepts e && l.settings.forward then j.write e.level (l.settings.render millis e) else j

/-- The log, accepting events again. -/
def enable (l : EventLog) : EventLog :=
  { l with enabled := true }

/-- The log, accepting no event. -/
def disable (l : EventLog) : EventLog :=
  { l with enabled := false }

/-- The log without the events that it kept. -/
def clear (l : EventLog) : EventLog :=
  { l with recent := [] }

theorem record_of_not_accepts {l : EventLog} {e : Event} (h : l.accepts e = false) (millis : Int) :
    l.record (millis, e) = l := by
  simp [record, h]

end EventLog

end Tenured
