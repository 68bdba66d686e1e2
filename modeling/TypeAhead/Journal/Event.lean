/-
  TypeAhead.Journal.Event — EVENTS.

  An event says what happened, how grave it is, under which code, and in which
  context.  The entries of the context are in the order of their keys, and a key
  keeps the last value that it was given.  An event is shown on one line, or
  written as a document.
-/
import TypeAhead.Code
import TypeAhead.Document.Basic
import TypeAhead.Settings.Basic
import TypeAhead.Text.Position

namespace TypeAhead

/-! ## §1. Contexts. -/

/-- Keys with their values. -/
abbrev Entries := List (String × String)

/-- Puts a value under a key: before all greater keys, and in the place of an equal one. -/
def Entries.put (key value : String) : Entries → Entries
  | [] => [(key, value)]
  | (k, v) :: entries =>
    if key < k then (key, value) :: (k, v) :: entries
    else if key == k then (key, value) :: entries
    else (k, v) :: put key value entries

/-- Puts values under keys, one after the other. -/
def Entries.putAll (entries more : Entries) : Entries :=
  more.foldl (fun entries (key, value) => put key value entries) entries

/-! ## §2. Events. -/

/-- Something that happened. -/
structure Event where
  level : Level
  code : Code
  message : String
  /-- The part of a text that the event is about. -/
  span : Option Text.Span := none
  /-- What else is known, in the order of the keys. -/
  context : Entries := []
  deriving Repr, DecidableEq, Inhabited

namespace Event

/-- Something failed. -/
def error (code : Code) (message : String) : Event := { level := .error, code, message }

/-- A step went well. -/
def success (code : Code) (message : String) : Event := { level := .info, code, message }

/-- Something to be wary of; it has no code of its own. -/
def warning (message : String) : Event := { level := .warning, code := ⟨"W000"⟩, message }

/-- Something worth knowing; it has no code of its own. -/
def info (message : String) : Event := { level := .info, code := ⟨"I000"⟩, message }

/-- A detail of the work; it has no code of its own. -/
def debug (message : String) : Event := { level := .debug, code := ⟨"D000"⟩, message }

/-- The event with more context. -/
def within (e : Event) (entries : Entries) : Event :=
  { e with context := e.context.putAll entries }

/-- The event at a part of a text. -/
def spanning (e : Event) (span : Text.Span) : Event := { e with span := some span }

/-- The event with as much of its message, and as many of the entries, as an event may hold. -/
def bounded (e : Event) (entries : Entries) : Event :=
  { e with message := String.ofList (Text.takeWithin Limits.messageBytes e.message.toList) }.within
    (entries.take Limits.contextEntries)

/-- Whether the event is a failure. -/
def isError (e : Event) : Bool := e.level == .error

/-- Whether the event is worth knowing, but no failure. -/
def isInfo (e : Event) : Bool := e.level == .info

/-! ## §3. Showing and writing. -/

/-- The entries of the context between parentheses; nothing without any. -/
def renderContext (entries : Entries) : String :=
  if entries.isEmpty then ""
  else " (" ++ String.intercalate ", " (entries.map fun (key, value) => key ++ "=" ++ value) ++ ")"

/-- The event on one line. -/
def render (e : Event) : String :=
  "[" ++ e.level.tag ++ "] " ++ e.code.id ++ " - " ++ e.message ++
    (e.span.elim "" fun span => " at " ++ span.start.render) ++ renderContext e.context

/-- What the register says about the code of a failure. -/
def failureDocument (c : Code) : Document :=
  .table [("recoverable", .boolean c.recoverable), ("requires_halt", .boolean c.halts),
    ("description", .text c.description), ("recommended_action", .text c.action)]

/-- A part of a text as a document. -/
def spanDocument (s : Text.Span) : Document :=
  .table [("start_offset", .nat s.start.offset), ("end_offset", .nat s.stop.offset),
    ("start_line", .nat s.start.line), ("start_column", .nat s.start.column),
    ("end_line", .nat s.stop.line), ("end_column", .nat s.stop.column)]

/-- The event as a document; what is empty is left out. -/
def toDocument (e : Event) : Document :=
  .table ([("level", .text e.level.tag), ("code", .text e.code.id), ("message", .text e.message),
    ("category", .text e.code.category), ("severity", .text e.code.severity.name)] ++
    (if e.isError then [("error_metadata", failureDocument e.code)] else []) ++
    (e.span.map fun span => ("span", spanDocument span)).toList ++
    (if e.context.isEmpty then []
      else [("context", .table (e.context.map fun (key, value) => (key, .text value)))]))

end Event

end TypeAhead
