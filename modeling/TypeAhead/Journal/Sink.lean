/-
  TypeAhead.Journal.Sink — WHERE EVENTS GO.

  Events are printed for people or as JSON, failures apart from the rest, or
  handed to the host of the analysis, or dropped.
-/
import TypeAhead.Document.Json
import TypeAhead.Journal.Event

namespace TypeAhead

/-- Where events go. -/
inductive Sink where
  /-- Lines for people, of events that pass the gate. -/
  | console (gate : Level)
  /-- Lines of JSON, of events that pass the gate. -/
  | structured (gate : Level)
  /-- The journal of the host. -/
  | host
  | nowhere
  deriving Repr, DecidableEq, Inhabited

/-- An event as the host takes it. -/
structure HostRecord where
  tag : String
  target : String
  text : String
  deriving Repr, DecidableEq, Inhabited

/-- What comes out of a sink. -/
structure Output where
  standard : List String := []
  /-- What is printed about failures. -/
  errors : List String := []
  host : List HostRecord := []
  deriving Repr, DecidableEq, Inhabited

/-- Puts outputs behind each other. -/
def Output.append (a b : Output) : Output :=
  ⟨a.standard ++ b.standard, a.errors ++ b.errors, a.host ++ b.host⟩

namespace Sink

/-- Prints a line about an event. -/
def print (e : Event) (line : String) : Output :=
  if e.isError then { errors := [line] } else { standard := [line] }

/-- What comes out for an event. -/
def emit (sink : Sink) (e : Event) : Output :=
  match sink with
  | console gate => if e.level.passes gate then print e e.render else {}
  | structured gate =>
    if e.level.passes gate then print e (Json.writeLine e.toDocument) else {}
  | host => { host := [⟨e.level.tag, "caret_analyzer", e.render⟩] }
  | nowhere => {}

/-- What comes out for an event behind another gate. -/
def emitBehind (sink : Sink) (gate : Level) (e : Event) : Output :=
  if e.level.passes gate then sink.emit e else {}

/-- The sink that the settings ask for. -/
def ofJournaling (j : Journaling) : Sink :=
  if j.structured then structured j.gate else if j.console then console j.gate else nowhere

end Sink

end TypeAhead
