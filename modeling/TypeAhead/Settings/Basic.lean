/-
  TypeAhead.Settings.Basic — WHAT A USER MAY CHOOSE.

  Settings say how expressions are read, how completion lists are made and
  written, and what the journal keeps and where it goes.
-/
import TypeAhead.Literal.Quoted
import TypeAhead.Text.Case

namespace TypeAhead

/-- The levels of events, from the gravest to the most talkative. -/
inductive Level where
  | error
  | warning
  | info
  | debug
  deriving Repr, DecidableEq, Inhabited

namespace Level

/-- The rank of a level; zero is the gravest. -/
def rank : Level → Nat
  | error => 0
  | warning => 1
  | info => 2
  | debug => 3

/-- The name under which events of the level are shown. -/
def tag : Level → String
  | error => "ERROR"
  | warning => "WARN"
  | info => "INFO"
  | debug => "DEBUG"

/-- The name of the level in documents. -/
def name : Level → String
  | error => "error"
  | warning => "warning"
  | info => "info"
  | debug => "debug"

/-- Whether events of level `l` pass a gate that is set to `gate`. -/
def passes (l gate : Level) : Bool := l.rank ≤ gate.rank

/-- Every level, from the gravest on. -/
def all : List Level := [error, warning, info, debug]

/-- The level of a name in documents. -/
def ofName? (word : String) : Option Level := all.find? fun l => l.name == word

/-- The level that a word stands for in any case: its name, its tag or its rank. -/
def ofWord? (word : String) : Option Level :=
  let word := Text.lower word
  all.find? fun l => word == l.name || word == Text.lower l.tag || word == toString l.rank

end Level

/-- The dialects with their names in documents. -/
def Dialect.names : List (Dialect × String) :=
  [(.backslash, "default"), (.doubled, "escape_double_quote_by_two_double_quotes")]

/-- The name of a dialect in documents. -/
def Dialect.name (d : Dialect) : String := (names.lookup d).getD ""

/-- The dialect of a name in documents. -/
def Dialect.ofName? (word : String) : Option Dialect :=
  (names.find? fun entry => entry.2 == word).map Prod.fst

/-- How expressions are read. -/
structure Parsing where
  /-- The dialect of string literals. -/
  dialect : Dialect := .backslash
  /-- Whether the alias after `as` may be a dotted name. -/
  dottedAliases : Bool := false
  /-- Whether a text that fails is tried again with its legacy keywords replaced. -/
  retryLegacy : Bool := true
  /-- Whether members are found without regard to case. -/
  ignoreCase : Bool := true
  deriving Repr, DecidableEq, Inhabited

/-- How completion lists are made and written. -/
structure Listing where
  /-- What stands between two items. -/
  separator : Char := ';'
  /-- What stands between the name and the kind of an item. -/
  kindSeparator : Char := '?'
  /-- Whether members of base types are listed. -/
  inherited : Bool := true
  deriving Repr, DecidableEq, Inhabited

/-- What the journal keeps and where it goes. -/
structure Journaling where
  /-- Whether events are written as JSON. -/
  structured : Bool := false
  /-- Whether events are written at all. -/
  console : Bool := false
  /-- The least grave level that is kept. -/
  gate : Level := .info
  deriving Repr, DecidableEq, Inhabited

/-- Everything a user may choose. -/
structure Settings where
  parsing : Parsing := {}
  listing : Listing := {}
  journaling : Journaling := {}
  deriving Repr, DecidableEq, Inhabited

end TypeAhead
