/-
  TypeAhead.Journal.Memory — A JOURNAL IN MEMORY.

  A journal has a gate, which lets events of its level and graver ones pass, and
  keeps the last events that passed it.
-/
import TypeAhead.Journal.Event

namespace TypeAhead

/-- The events that passed a gate, the oldest first. -/
structure Journal where
  gate : Level
  events : Array Event := #[]
  deriving Repr, Inhabited

namespace Journal

/-- Without the oldest events that a journal has no room for. -/
def latest (events : Array Event) : Array Event :=
  if events.size > Limits.journalEvents then events.drop (events.size - Limits.journalEvents)
  else events

/-- Takes an event. -/
def record (j : Journal) (e : Event) : Journal :=
  if e.level.passes j.gate then { j with events := latest (j.events.push e) } else j

/-- Forgets all events. -/
def clear (j : Journal) : Journal := { j with events := #[] }

/-- Lets other levels pass from now on. -/
def withGate (j : Journal) (gate : Level) : Journal := { j with gate }

/-- How many events are kept. -/
def size (j : Journal) : Nat := j.events.size

/-- How many events of a level are kept. -/
def countAt (j : Journal) (l : Level) : Nat := j.events.countP fun e => e.level == l

/-- The events with a code. -/
def withCode (j : Journal) (c : Code) : Array Event := j.events.filter fun e => e.code == c

/-- Whether a failure with a code is kept. -/
def hasError (j : Journal) (c : Code) : Bool := (j.withCode c).any Event.isError

/-- Whether a step that went well is kept under a code. -/
def hasSuccess (j : Journal) (c : Code) : Bool := (j.withCode c).any Event.isInfo

end Journal

end TypeAhead
