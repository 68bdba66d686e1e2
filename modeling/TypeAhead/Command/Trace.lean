/-
  TypeAhead.Command.Trace — WHAT THE COMMAND LEAVES IN THE JOURNAL.

  The command tells that it has read its settings and what it is about to do;
  the rest is told by the analysis.
-/
import TypeAhead.Command.Run
import TypeAhead.Journal.Trace

namespace TypeAhead.Command.Trace

/-- The settings are read. -/
def settings (a : Arguments) : List Event :=
  a.config.toList.map fun path =>
    (Event.success .settingsLoaded "Runtime configuration loaded").bounded [("path", path)]

/-- The model becomes a registry. -/
def load (a : Arguments) (files : Files) : List Event :=
  match a.loadModel files with
  | .ok (some m) => TypeAhead.Trace.load m
  | _ => []

/-- The command is about to work. -/
def start (a : Arguments) (t : Task) : Event :=
  (Event.info "Analyzing expression").bounded
    [("context", t.context.fullName), ("caret", toString t.caret),
      ("complete", toString a.complete)]

/-- The command works. -/
def work (a : Arguments) (t : Task) : List Event :=
  start a t ::
    if a.complete then TypeAhead.Trace.complete t.setting t.settings.listing t.text t.caret
    else TypeAhead.Trace.analyze t.setting t.text t.caret

/-- The answer to the arguments is looked for. -/
def answer (a : Arguments) (files : Files) (env : Environment) : List Event :=
  match a.settings files env with
  | .error _ => []
  | .ok given =>
    settings a ++ load a files ++
    match a.task files given with
    | .error _ => []
    | .ok task => work a task

end TypeAhead.Command.Trace
