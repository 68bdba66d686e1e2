/-
  TypeAhead.Command.Arguments — THE ARGUMENTS OF THE COMMAND.

  Arguments are read from left to right.  An option takes its value behind an
  equals sign, or from the next argument if that does not look like an option; a
  value is checked as soon as the argument after it is understood.  Behind `--`
  every argument is a text.

      textMissing        neither a text nor a file is given
      conflict           both are given, or one option is given twice
-/
import TypeAhead.Literal.Number
import TypeAhead.Settings.Environment

namespace TypeAhead.Command

/-! ## §1. What can be given. -/

/-- What an argument can give. -/
inductive Slot where
  /-- The expression itself. -/
  | text
  /-- A file that holds the expression. -/
  | file
  | caret
  /-- A file that holds a model of types. -/
  | model
  /-- The name of the type of the context. -/
  | context
  /-- A file that holds settings. -/
  | config
  /-- What is told about the work. -/
  | verbosity
  /-- Whether members are listed. -/
  | complete
  /-- Whether the answer is a JSON document. -/
  | json
  /-- Whether doubled quotes stand for one. -/
  | doubledQuotes
  deriving Repr, DecidableEq, Inhabited

namespace Slot

/-- The options with their names. -/
def names : List (String × Slot) :=
  [("file", file), ("caret", caret), ("model", model), ("context", context), ("config", config),
    ("log-level", verbosity), ("complete", complete), ("json", json),
    ("double-quote-escapes", doubledQuotes)]

/-- Whether the option is a mere flag. -/
def isFlag : Slot → Bool
  | complete | json | doubledQuotes => true
  | _ => false

/-- How the slot is named to the user. -/
def title (s : Slot) : String :=
  match names.find? fun entry => entry.2 == s with
  | some (name, _) => "--" ++ name
  | none => "[TEXT]"

end Slot

/-- What is given. -/
structure Arguments where
  text : Option String := none
  file : Option String := none
  /-- The byte offset of the caret. -/
  caret : Option Nat := none
  model : Option String := none
  context : Option String := none
  config : Option String := none
  /-- The least grave level of events that are told; none at all without it. -/
  verbosity : Option Level := some .warning
  complete : Bool := false
  json : Bool := false
  doubledQuotes : Bool := false
  deriving Repr, DecidableEq, Inhabited

/-- Why there is nothing to run. -/
inductive Usage where
  | help
  | version
  | unknown (argument : String)
  | conflict (slot : Slot)
  | valueMissing (slot : Slot)
  | valueInvalid (slot : Slot) (value : String)
  /-- A flag with a value. -/
  | valueUnexpected (argument : String)
  | textMissing
  deriving Repr, DecidableEq, Inhabited

/-- The code with which the command ends; asking for help is no failure. -/
def Usage.exitCode : Usage → Nat
  | help | version => 0
  | _ => 2

/-! ## §2. Values. -/

/-- Reads an offset of 64 bits, which may have a plus before it. -/
def offset? (value : String) : Option Nat :=
  let digits := match value.toList with
    | '+' :: cs => cs
    | cs => cs
  let bound := Literal.Integer.bound
  let n := Literal.valueWithin bound 10 digits
  if !digits.isEmpty && digits.all Char.isDigit && n < bound then some n else none

/-- Reads a verbosity in any case. -/
def verbosity? (value : String) : Option (Option Level) :=
  [("off", none), ("error", some .error), ("warn", some .warning), ("info", some .info),
    ("debug", some .debug), ("trace", some .debug)].lookup (Text.lower value)

/-- Reads a path, which is not empty. -/
def path? (slot : Slot) (value : String) : Except Usage String :=
  if value.isEmpty then .error (.valueMissing slot) else .ok value

/-- Fills a slot that takes a value. -/
def Arguments.fill (a : Arguments) (slot : Slot) (value : String) : Except Usage Arguments :=
  match slot with
  | .text => .ok { a with text := value }
  | .file => (path? slot value).map fun path => { a with file := path }
  | .model => (path? slot value).map fun path => { a with model := path }
  | .config => (path? slot value).map fun path => { a with config := path }
  | .context => .ok { a with context := value }
  | .caret =>
    match offset? value with
    | some offset => .ok { a with caret := offset }
    | none => .error (.valueInvalid slot value)
  | .verbosity =>
    match verbosity? value with
    | some level => .ok { a with verbosity := level }
    | none => .error (.valueInvalid slot value)
  | .complete => .ok { a with complete := true }
  | .json => .ok { a with json := true }
  | .doubledQuotes => .ok { a with doubledQuotes := true }

/-! ## §3. Reading. -/

/-- What is read so far. -/
structure Draft where
  arguments : Arguments := {}
  /-- The slots that are filled. -/
  given : List Slot := []
  /-- A slot that is still to be filled, with its value if that came. -/
  pending : Option (Slot × Option String) := none
  /-- Whether `--` came. -/
  onlyTexts : Bool := false

namespace Draft

/-- Fills a slot, which must not be filled before. -/
def give (d : Draft) (slot : Slot) (value : String) : Except Usage Draft :=
  if d.given.contains slot then .error (.conflict slot)
  else (d.arguments.fill slot value).map fun arguments =>
    { d with arguments, given := slot :: d.given }

/-- Fills the slot that is still to be filled. -/
def settle (d : Draft) : Except Usage Draft :=
  match d.pending with
  | none => .ok d
  | some (slot, none) => .error (.valueMissing slot)
  | some (slot, some value) => { d with pending := none }.give slot value

/-- Whether a text came. -/
def hasText (d : Draft) : Bool :=
  d.given.contains .text || d.pending.any fun (slot, _) => slot == .text

/-- Reads an argument that is no option: the value of one, or the text. -/
def word (d : Draft) (argument : String) : Except Usage Draft :=
  match d.pending, d.onlyTexts with
  | some (slot, none), false => .ok { d with pending := some (slot, some argument) }
  | _, _ =>
    if d.hasText then .error (.unknown argument)
    else d.settle.map fun d => { d with pending := some (.text, some argument) }

/-- Reads a name and, behind an equals sign, a value. -/
def option (d : Draft) (argument name : String) (value : Option String) : Except Usage Draft :=
  let ask (answer : Usage) : Except Usage Draft :=
    if value.isSome then .error (.valueUnexpected argument)
    else d.settle.bind fun _ => .error answer
  if name == "help" then ask .help
  else if name == "version" then ask .version
  else
    match Slot.names.lookup name, value with
    | none, _ => .error (.unknown argument)
    | some slot, none =>
      d.settle.bind fun d =>
        if slot.isFlag then d.give slot "" else .ok { d with pending := some (slot, none) }
    | some slot, some value =>
      if slot.isFlag then .error (.valueUnexpected argument)
      else d.settle.bind fun d => d.give slot value

/-- Reads an option with two hyphens, which are left out. -/
def long (d : Draft) (argument : String) (body : List Char) : Except Usage Draft :=
  let name := String.ofList (body.takeWhile (· ≠ '='))
  match body.dropWhile (· ≠ '=') with
  | [] => d.option argument name none
  | _ :: value => d.option argument name (some (String.ofList value))

/-- Reads an option with one hyphen, by its first letter. -/
def short (d : Draft) (argument : String) (letter : Char) : Except Usage Draft :=
  if letter = 'h' then d.settle.bind fun _ => .error .help
  else if letter = 'V' then d.settle.bind fun _ => .error .version
  else .error (.unknown argument)

/-- Reads an argument. -/
def read (d : Draft) (argument : String) : Except Usage Draft :=
  if d.onlyTexts then d.word argument
  else
    match argument.toList with
    | ['-', '-'] => .ok { d with onlyTexts := true }
    | '-' :: '-' :: body => d.long argument body
    | '-' :: letter :: _ => d.short argument letter
    | _ => d.word argument

/-- Takes the verbosity from the environment, if it is not given. -/
def withEnvironment (d : Draft) (env : Environment) : Except Usage Draft :=
  if d.given.contains .verbosity then .ok d
  else
    match env.lookup "CARET_LOG" with
    | none => .ok d
    | some value => d.give .verbosity value

/-- The arguments, of which exactly one is a text or a file with it. -/
def finish (d : Draft) : Except Usage Arguments :=
  match d.arguments.text, d.arguments.file with
  | none, none => .error .textMissing
  | some _, some _ => .error (.conflict .text)
  | _, _ => .ok d.arguments

end Draft

/-- Reads the arguments of the command under an environment. -/
def Arguments.read (env : Environment) (arguments : List String) : Except Usage Arguments := do
  let d ← arguments.foldlM Draft.read {}
  let d ← d.settle
  let d ← d.withEnvironment env
  d.finish

end TypeAhead.Command
