/-
  TypeAhead.Settings.Load — SETTINGS FROM FILES.

  A file of settings is a TOML document.  It is read over the settings of the
  environment, which hold for everything that the file leaves out.
-/
import TypeAhead.Code
import TypeAhead.Document.Toml
import TypeAhead.Files
import TypeAhead.Settings.Document

namespace TypeAhead

/-! ## §1. What can be wrong with a file of settings. -/

/-- What is wrong with a file of settings. -/
inductive SettingsFault where
  /-- The file could not be read. -/
  | unread (path reason : String)
  /-- The text is not a TOML document of settings. -/
  | malformed
  deriving Repr, DecidableEq, Inhabited

namespace SettingsFault

/-- The wording, where it is this library's own. -/
def message? : SettingsFault → Option String
  | unread path reason => some s!"Failed to read configuration file '{path}': {reason}"
  | malformed => none

/-- The code under which the fault is reported. -/
def code : SettingsFault → Code
  | unread .. => .settingsUnread
  | malformed => .settingsMalformed

end SettingsFault

/-! ## §2. Loading. -/

namespace Settings

/-- The settings of a TOML text over those that are given. -/
def ofToml (given : Settings) (text : String) : Except SettingsFault Settings :=
  match (Toml.read? text).bind (ofDocument? .toml given) with
  | some settings => .ok settings
  | none => .error .malformed

/-- The settings of a file over those that are given. -/
def ofFile (files : Files) (given : Settings) (path : String) : Except SettingsFault Settings :=
  match files path with
  | .error reason => .error (.unread path reason)
  | .ok text => ofToml given text

end Settings

end TypeAhead
