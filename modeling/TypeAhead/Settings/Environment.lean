/-
  TypeAhead.Settings.Environment — SETTINGS FROM THE ENVIRONMENT.

  Each choice has a variable of its own.  A variable that is not set, or whose
  value cannot be read, leaves the choice as it is by default.
-/
import TypeAhead.Settings.Basic

namespace TypeAhead

/-! ## §1. Environments. -/

/-- The variables that are set, with their values. -/
abbrev Environment := List (String × String)

namespace Environment

/-- What a variable says, or the default. -/
def choice {α : Type} (env : Environment) (name : String) (read : String → Option α)
    (default : α) : α :=
  ((env.lookup name).bind read).getD default

/-- Reads a truth value. -/
def boolean? : String → Option Bool
  | "true" => some true
  | "false" => some false
  | _ => none

/-- Reads a text of one character. -/
def char? (s : String) : Option Char :=
  match s.toList with
  | [c] => some c
  | _ => none

/-- Reads a dialect, by its name or a shorter one, in any case. -/
def dialect? (s : String) : Option Dialect :=
  let word := Text.lower s
  if word == Dialect.backslash.name || word == "backslash" then some .backslash
  else if word == Dialect.doubled.name || word == "double_quote" || word == "two_double_quotes" then
    some .doubled
  else none

end Environment

/-! ## §2. Settings. -/

/-- How expressions are read under an environment. -/
def Parsing.ofEnvironment (env : Environment) : Parsing :=
  let default : Parsing := {}
  { dialect :=
      env.choice "CARET_STRING_LITERAL_PARSING" Environment.dialect? default.dialect
    dottedAliases :=
      env.choice "CARET_SUPPORT_DOT_IN_PROPERTY_NAMES" Environment.boolean? default.dottedAliases
    retryLegacy :=
      env.choice "CARET_RETRY_LEGACY_KEYWORDS" Environment.boolean? default.retryLegacy
    ignoreCase :=
      env.choice "CARET_CASE_INSENSITIVE_MEMBERS" Environment.boolean? default.ignoreCase }

/-- How completion lists are made under an environment. -/
def Listing.ofEnvironment (env : Environment) : Listing :=
  let default : Listing := {}
  { separator := env.choice "CARET_COMPLETION_SEPARATOR" Environment.char? default.separator
    kindSeparator :=
      env.choice "CARET_COMPLETION_TYPE_SEPARATOR" Environment.char? default.kindSeparator
    inherited :=
      env.choice "CARET_COMPLETION_INCLUDE_INHERITED" Environment.boolean? default.inherited }

/-- What the journal keeps under an environment. -/
def Journaling.ofEnvironment (env : Environment) : Journaling :=
  let default : Journaling := {}
  { structured :=
      env.choice "CARET_LOGGING_USE_STRUCTURED" Environment.boolean? default.structured
    console := env.choice "CARET_LOGGING_ENABLE_CONSOLE" Environment.boolean? default.console
    gate := env.choice "CARET_LOGGING_MIN_LEVEL" Level.ofWord? default.gate }

/-- The settings under an environment. -/
def Settings.ofEnvironment (env : Environment) : Settings :=
  { parsing := .ofEnvironment env
    listing := .ofEnvironment env
    journaling := .ofEnvironment env }

end TypeAhead
