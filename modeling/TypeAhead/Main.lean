/-
  TypeAhead.Main — THE COMMAND.

  Reads the arguments, the environment and the files that the arguments name,
  prints the answer, and tells on the error stream what the verbosity asks for.
-/
import TypeAhead.Command.Trace
import TypeAhead.Journal.Sink

namespace TypeAhead.Command

/-! ## §1. Texts for the user. -/

/-- How the command is called. -/
def helpLines : List String :=
  ["Resolve the type of the expression fragment before a caret", "",
    "Usage: caret [OPTIONS] [TEXT]", "",
    "  --file <PATH>           Read the expression from a file instead",
    "  --caret <OFFSET>        Caret byte offset; defaults to the end of the text",
    "  --model <FILE>          Type model (.toml or .json) with custom types and the context type",
    "  --context <TYPE>        Type bound to it, overriding the context of the model",
    "  --complete              List the members available at the caret",
    "  --json                  Print JSON instead of text",
    "  --double-quote-escapes  Strings use two quotes for an embedded quote",
    "  --config <FILE>         Runtime configuration file (TOML)",
    "  --log-level <LEVEL>     off, error, warn, info, debug or trace",
    "  -h, --help              Print help",
    "  -V, --version           Print version"]

/-- What the user is told when there is nothing to run. -/
def Usage.message : Usage → String
  | help => String.intercalate "\n" helpLines
  | version => "caret 0.1.0"
  | unknown argument => s!"error: unexpected argument '{argument}' found"
  | conflict slot => s!"error: the argument '{slot.title}' cannot be used here"
  | valueMissing slot => s!"error: a value is required for '{slot.title}' but none was supplied"
  | valueInvalid slot value => s!"error: invalid value '{value}' for '{slot.title}'"
  | valueUnexpected argument => s!"error: unexpected value in '{argument}'"
  | textMissing => "error: the following required arguments were not provided:\n  [TEXT]"

/-- The wording of a fault for the user. -/
def CommandFault.told : CommandFault → String
  | settings .malformed => "Invalid configuration"
  | model .badToml => "Invalid TOML type model"
  | model .badJson => "Invalid JSON type model"
  | fault => fault.message?.getD ""

/-- The event of a command that has no answer. -/
def failed (fault : CommandFault) : Event :=
  (Event.error .internal "Command failed").bounded [("error", fault.told)]

/-- The lines that the verbosity lets through. -/
def told (verbosity : Option Level) (events : List Event) : List String :=
  match verbosity with
  | none => []
  | some gate =>
    events.flatMap fun e =>
      (Sink.host.emitBehind gate e).host.map fun r => s!"[{r.tag} {r.target}] {r.text}"

/-! ## §2. The world outside. -/

/-- The names of the variables that the command looks at. -/
def variableNames : List String :=
  ["CARET_LOG", "CARET_STRING_LITERAL_PARSING", "CARET_SUPPORT_DOT_IN_PROPERTY_NAMES",
    "CARET_RETRY_LEGACY_KEYWORDS", "CARET_CASE_INSENSITIVE_MEMBERS", "CARET_COMPLETION_SEPARATOR",
    "CARET_COMPLETION_TYPE_SEPARATOR", "CARET_COMPLETION_INCLUDE_INHERITED",
    "CARET_LOGGING_USE_STRUCTURED", "CARET_LOGGING_ENABLE_CONSOLE", "CARET_LOGGING_MIN_LEVEL"]

/-- The variables that are set. -/
def readEnvironment : IO Environment := do
  let values ← variableNames.mapM fun name => do return (← IO.getEnv name).map (name, ·)
  return values.filterMap id

/-- The reason why a file cannot be read, as it is told. -/
def reasonOf : IO.Error → String
  | .noFileOrDirectory .. => FileFault.missing.message
  | error => toString error

/-- Reads a file. -/
def readPath (path : String) : IO (String × Except String String) := do
  match ← (IO.FS.readFile path).toBaseIO with
  | .ok text => return (path, .ok text)
  | .error error => return (path, .error (reasonOf error))

/-- Reads the files that the arguments name. -/
def readFiles (a : Arguments) : IO Files := do
  let found ← (a.config.toList ++ a.model.toList ++ a.file.toList).mapM readPath
  return fun path => (found.lookup path).getD (.error FileFault.missing.message)

/-- Answers arguments that are understood. -/
def Arguments.run (a : Arguments) (env : Environment) : IO UInt32 := do
  let files ← readFiles a
  let out ← IO.getStdout
  let err ← IO.getStderr
  for line in told a.verbosity (Trace.answer a files env) do
    err.putStrLn line
  match a.answer files env with
  | .ok text =>
    out.putStr text
    return 0
  | .error fault =>
    for line in told a.verbosity [failed fault] do
      err.putStrLn line
    err.putStrLn s!"Error: {fault.told}"
    return 1

/-- Answers arguments that ask for nothing to be run. -/
def Usage.run (u : Usage) : IO UInt32 := do
  let stream ← if u.exitCode = 0 then IO.getStdout else IO.getStderr
  stream.putStrLn u.message
  return u.exitCode.toUInt32

end TypeAhead.Command

/-- The command. -/
def main (arguments : List String) : IO UInt32 := do
  let env ← TypeAhead.Command.readEnvironment
  match TypeAhead.Command.Arguments.read env arguments with
  | .ok a => a.run env
  | .error usage => usage.run
