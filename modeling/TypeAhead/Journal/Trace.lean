/-
  TypeAhead.Journal.Trace — WHAT AN ANALYSIS LEAVES IN THE JOURNAL.

  Each step of an analysis leaves events behind: what was found, or why a part
  of the work was given up.  They follow from what is analysed and from the
  answers; an analysis itself does not depend on its journal.
-/
import TypeAhead.Completion
import TypeAhead.Journal.Event
import TypeAhead.Types.Model

namespace TypeAhead.Trace

/-! ## §1. Models. -/

/-- A model becomes a registry. -/
def load (m : TypeModel) : List Event :=
  match m.load with
  | .error _ => []
  | .ok _ =>
    [(Event.success .modelLoaded "Type model loaded").bounded
      [("types", toString m.types.length), ("context", m.context.getD "<none>")]]

/-! ## §2. Fragments. -/

/-- The event of a fragment that was found. -/
def located (f : Fragment) : Event :=
  (Event.success .fragmentLocated "Trailing fragment located").bounded
    [("fragment_start", toString f.start), ("fragment", f.text)]

/-- The event of a walk that was stopped. -/
def stopped (f : Fragment) (fault : Fault) : Event :=
  (Event.debug "Fragment locator stopped early").bounded
    [("error", fault.message), ("fragment_start", toString f.start)]

/-- The trailing fragment of a text is looked for. -/
def locate (parsing : Parsing) (text : String) : List Event :=
  match Fragment.locate parsing text with
  | .error _ => []
  | .ok f => (f.stoppedBy.map (stopped f)).toList ++ [located f]

/-! ## §3. Types. -/

/-- The event of a text that has a type. -/
def compiled (text : String) (t : TypeDef) : Event :=
  (Event.success .expressionCompiled "Expression compiled").bounded
    [("text", text), ("type", t.fullName)]

/-- The type of a text is looked for. -/
def compile (s : Typing.Setting) (text : String) : List Event :=
  match s.compile text with
  | .error _ => []
  | .ok t => [compiled text t]

/-- A text with a fault is tried again. -/
def retry (s : Typing.Setting) (text : String) : List Event :=
  match Legacy.replace? text with
  | none => [(Event.debug "No legacy keywords to rewrite").bounded [("text", text)]]
  | some replaced =>
    (Event.success .legacyKeywordsReplaced "Retrying with legacy keywords rewritten").bounded
      [("original", text), ("rewritten", replaced)] ::
    match s.compile replaced with
    | .ok t => [compiled replaced t]
    | .error failure =>
      [(Event.debug "Rewritten text did not compile either").bounded
        [("rewritten", replaced), ("error", failure.message)]]

/-- The type of a text is looked for, with a second attempt if `again` is set. -/
def compileRetrying (s : Typing.Setting) (again : Bool) (text : String) : List Event :=
  match s.compile text with
  | .ok t => [compiled text t]
  | .error failure => if failure.isFault && again then retry s text else []

/-! ## §4. Resolutions. -/

/-- The event of a fragment that is the name of a type. -/
def matched (fragment : String) (t : TypeDef) : Event :=
  (Event.success .typeNameMatched "Fragment matched a type name").bounded
    [("fragment", fragment), ("type", t.fullName)]

/-- The event of a fragment that stands for nothing. -/
def unresolved (fragment : String) (failure : Failure) : Event :=
  ((Event.error .fragmentUnresolved "Fragment could not be resolved").bounded
    [("fragment", fragment), ("error", failure.message)]).spanning
    (.point fragment.toList (failure.position?.getD 0))

/-- What a fragment stands for is looked for. -/
def resolve (s : Typing.Setting) (fragment : String) : List Event :=
  if fragment.isEmpty then []
  else
    compileRetrying s s.parsing.retryLegacy fragment ++
    match s.compileRetrying s.parsing.retryLegacy fragment with
    | .ok _ => []
    | .error failure =>
      match bareType? s.context fragment with
      | some t => [matched fragment t]
      | none => [unresolved fragment failure]

/-! ## §5. Carets. -/

/-- The event of an analysis that has an answer. -/
def analyzed (caret : Nat) (a : Analysis) : Event :=
  (Event.success .analysisCompleted "Caret analysis completed").bounded
    [("caret", toString caret), ("fragment", a.fragment.text),
      ("class_identifier", toString a.resolution.isTypeName)]

/-- What the caret points at is looked for. -/
def analyze (s : Typing.Setting) (text : String) (caret : Nat) : List Event :=
  match Analysis.truncate text caret with
  | .error _ => []
  | .ok before =>
    locate s.parsing before ++
    match Fragment.locate s.parsing before with
    | .error _ => []
    | .ok fragment =>
      resolve s fragment.text ++
      match s.resolve fragment.text with
      | .error _ => []
      | .ok resolution => [analyzed caret { resolution, fragment }]

/-- The event of a list that was made. -/
def completed (c : Completion) : Event :=
  (Event.success .completionListBuilt "Completion list built").bounded
    [("type", c.type.fullName), ("items", toString c.items.length)]

/-- What may be typed at the caret is looked for. -/
def complete (s : Typing.Setting) (listing : Listing) (text : String) (caret : Nat) :
    List Event :=
  match Completion.wordStart? text caret with
  | none => []
  | some wordStart =>
    analyze s text (Completion.beforeWord text wordStart) ++
    match s.complete listing text caret with
    | .ok (some c) => [completed c]
    | _ => []

end TypeAhead.Trace
