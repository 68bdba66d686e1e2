/-
  TypeAhead.Journal.Summary — HOW THE JOURNAL IS SET UP.

  The limits of the journal and what the user has chosen for it, as a text for
  people.
-/
import TypeAhead.Limits
import TypeAhead.Settings.Basic

namespace TypeAhead

/-- The level as a word in a text. -/
def Level.title : Level → String
  | error => "Error"
  | warning => "Warning"
  | info => "Info"
  | debug => "Debug"

/-- Whether the limits leave room for a journal, and bound it. -/
def Limits.allowJournal : Bool :=
  100 ≤ journalEvents && journalEvents ≤ 100000 && 64 ≤ messageBytes

namespace Journaling

/-- The lines about the limits. -/
def limitLines : List String :=
  ["=== Limits (Compile-time) ===", s!"- Log buffer size: {Limits.journalEvents}",
    s!"- Max message length: {Limits.messageBytes}",
    s!"- Max context entries: {Limits.contextEntries}"]

/-- The lines about what the user has chosen. -/
def choiceLines (j : Journaling) : List String :=
  ["=== User Preferences (Runtime) ===", s!"- Min log level: {j.gate.title}",
    s!"- Structured logging: {j.structured}", s!"- Console logging: {j.console}"]

/-- How the journal is set up, and whether it is open. -/
def summary (j : Journaling) (isOpen : Bool) : String :=
  String.intercalate "\n" (["=== Logging System Diagnostics ===", s!"Initialized: {isOpen}", "",
    "Logging Configuration:"] ++ limitLines ++ j.choiceLines)

end Journaling

end TypeAhead
