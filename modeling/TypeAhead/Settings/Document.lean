/-
  TypeAhead.Settings.Document — SETTINGS AS DOCUMENTS.

  A document of settings has a section for each kind of choice.  What it leaves
  out keeps the value of the settings that are there already.
-/
import TypeAhead.Document.Basic
import TypeAhead.Settings.Basic

namespace TypeAhead

open Document

/-! ## §1. Reading. -/

section

variable (format : Format)

/-- Reads how expressions are read. -/
def Parsing.ofDocument? (given : Parsing) (d : Document) : Option Parsing := do
  let fields ← d.fields? format
    ["string_literal_parsing", "support_dot_in_property_names", "retry_legacy_keywords",
      "case_insensitive_members"]
  let dialect ← withDefault? given.dialect (choice? format Dialect.ofName?) fields 0
  let dottedAliases ← withDefault? given.dottedAliases boolean? fields 1
  let retryLegacy ← withDefault? given.retryLegacy boolean? fields 2
  let ignoreCase ← withDefault? given.ignoreCase boolean? fields 3
  some { dialect, dottedAliases, retryLegacy, ignoreCase }

/-- Reads how completion lists are made. -/
def Listing.ofDocument? (given : Listing) (d : Document) : Option Listing := do
  let fields ← d.fields? format ["separator", "type_separator", "include_inherited_members"]
  let separator ← withDefault? given.separator char? fields 0
  let kindSeparator ← withDefault? given.kindSeparator char? fields 1
  let inherited ← withDefault? given.inherited boolean? fields 2
  some { separator, kindSeparator, inherited }

/-- Reads what the journal keeps. -/
def Journaling.ofDocument? (given : Journaling) (d : Document) : Option Journaling := do
  let fields ← d.fields? format
    ["use_structured_logging", "enable_console_logging", "min_log_level"]
  let structured ← withDefault? given.structured boolean? fields 0
  let console ← withDefault? given.console boolean? fields 1
  let gate ← withDefault? given.gate (choice? format Level.ofName?) fields 2
  some { structured, console, gate }

/-- Reads settings. -/
def Settings.ofDocument? (given : Settings) (d : Document) : Option Settings := do
  let fields ← d.fields? format ["parsing", "completion", "logging"]
  let parsing ← withDefault? given.parsing (Parsing.ofDocument? format given.parsing) fields 0
  let listing ← withDefault? given.listing (Listing.ofDocument? format given.listing) fields 1
  let journaling ←
    withDefault? given.journaling (Journaling.ofDocument? format given.journaling) fields 2
  some { parsing, listing, journaling }

end

/-! ## §2. Writing. -/

/-- Writes how expressions are read. -/
def Parsing.toDocument (p : Parsing) : Document :=
  .table [("string_literal_parsing", .text p.dialect.name),
    ("support_dot_in_property_names", .boolean p.dottedAliases),
    ("retry_legacy_keywords", .boolean p.retryLegacy),
    ("case_insensitive_members", .boolean p.ignoreCase)]

/-- Writes how completion lists are made. -/
def Listing.toDocument (l : Listing) : Document :=
  .table [("separator", .text l.separator.toString),
    ("type_separator", .text l.kindSeparator.toString),
    ("include_inherited_members", .boolean l.inherited)]

/-- Writes what the journal keeps. -/
def Journaling.toDocument (j : Journaling) : Document :=
  .table [("use_structured_logging", .boolean j.structured),
    ("enable_console_logging", .boolean j.console), ("min_log_level", .text j.gate.name)]

/-- Writes settings. -/
def Settings.toDocument (s : Settings) : Document :=
  .table [("parsing", s.parsing.toDocument), ("completion", s.listing.toDocument),
    ("logging", s.journaling.toDocument)]

end TypeAhead
