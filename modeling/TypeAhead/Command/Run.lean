/-
  TypeAhead.Command.Run — WHAT THE COMMAND DOES.

  The command reads its settings, the model of types and the text, in this
  order, and shows what the caret points at or what may be typed there.  The
  first thing that is wrong is its answer.
-/
import TypeAhead.Command.Arguments
import TypeAhead.Command.Report
import TypeAhead.Settings.Load
import TypeAhead.Types.Load

namespace TypeAhead.Command

/-! ## §1. What can go wrong. -/

/-- Why the command has no answer. -/
inductive CommandFault where
  | settings (fault : SettingsFault)
  | model (fault : ModelFault)
  | unknownContext (name : String)
  /-- The file with the text could not be read. -/
  | textUnread (path reason : String)
  | analysis (failure : Failure)
  deriving Repr, DecidableEq, Inhabited

/-- The wording, where it is this library's own. -/
def CommandFault.message? : CommandFault → Option String
  | settings fault => fault.message?
  | model fault => fault.message?
  | unknownContext name => some s!"Unknown context type '{name}'"
  | textUnread path reason => some s!"Failed to read '{path}': {reason}"
  | analysis failure => some failure.message

/-! ## §2. What the command needs. -/

namespace Arguments

/-- The settings: those of the environment, under those of the file, under the arguments. -/
def settings (a : Arguments) (files : Files) (env : Environment) :
    Except CommandFault Settings := do
  let given := Settings.ofEnvironment env
  let settings ← match a.config with
    | none => .ok given
    | some path => (given.ofFile files path).mapError .settings
  pure <|
    if a.doubledQuotes then { settings with parsing := { settings.parsing with dialect := .doubled } }
    else settings

/-- The model, if one is given. -/
def loadModel (a : Arguments) (files : Files) : Except CommandFault (Option TypeModel) :=
  match a.model with
  | none => .ok none
  | some path => ((TypeModel.ofFile files path).mapError .model).map some

/-- The registry, and the type of the context that the model gives. -/
def loadRegistry (model : Option TypeModel) : Except CommandFault LoadedModel :=
  match model with
  | none => .ok ⟨.empty, none⟩
  | some m => m.load.mapError .model

/-- The type of the context: what is given comes before what the model says. -/
def contextType (a : Arguments) (loaded : LoadedModel) : Except CommandFault TypeDef :=
  match a.context with
  | none => .ok (loaded.context.getD Predefined.objectType)
  | some name =>
    match loaded.registry.named? name with
    | some t => .ok t
    | none => .error (.unknownContext name)

/-- The text. -/
def readText (a : Arguments) (files : Files) : Except CommandFault String :=
  match a.text, a.file with
  | some text, _ => .ok text
  | none, some path => (files path).mapError (.textUnread path)
  | none, none => .ok ""

end Arguments

/-- What the command works on. -/
structure Task where
  settings : Settings
  registry : Registry
  context : TypeDef
  text : String
  caret : Nat
  deriving Repr, Inhabited

/-- What expressions are read against. -/
def Task.setting (t : Task) : Typing.Setting := ⟨t.registry, t.settings.parsing, t.context⟩

/-- Gathers what the command works on. -/
def Arguments.task (a : Arguments) (files : Files) (settings : Settings) :
    Except CommandFault Task := do
  let loaded ← loadRegistry (← a.loadModel files)
  let context ← a.contextType loaded
  let text ← a.readText files
  pure { settings, registry := loaded.registry, context, text,
         caret := a.caret.getD text.utf8ByteSize }

/-! ## §3. Answers. -/

/-- What may be typed at the caret. -/
def Task.complete (t : Task) (json : Bool) : Except Failure String := do
  let listing := t.settings.listing
  let list ← t.setting.complete listing t.text t.caret
  pure <|
    if json then Json.write (Completion.optionalDocument list)
    else Completion.renderOptional list listing

/-- What the caret points at. -/
def Task.analyze (t : Task) (json : Bool) : Except Failure String := do
  let a ← t.setting.analyze t.text t.caret
  pure (if json then Json.write a.toDocument else a.render)

/-- The answer to the arguments. -/
def Arguments.answer (a : Arguments) (files : Files) (env : Environment) :
    Except CommandFault String := do
  let settings ← a.settings files env
  let task ← a.task files settings
  (if a.complete then task.complete a.json else task.analyze a.json).mapError .analysis

end TypeAhead.Command
