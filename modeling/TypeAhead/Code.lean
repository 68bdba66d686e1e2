/-
  TypeAhead.Code — THE REGISTER OF CODES.

  Every failure, and every step that went well, has a short code under which it
  is reported.  Codes of failures have an entry that says how grave the failure
  is, whether work can go on after it, and what to do; codes without an entry
  are judged by the defaults at the end.
-/
namespace TypeAhead

/-! ## §1. Codes. -/

/-- A code, for instance `E040`. -/
structure Code where
  id : String
  deriving Repr, DecidableEq, Inhabited

namespace Code

/-! ### Trouble inside the analysis. -/

/-- Critical internal system error. -/
def internal : Code := ⟨"ERR001"⟩

/-- System initialization failure. -/
def initialization : Code := ⟨"ERR002"⟩

/-! ### Configurations and type models. -/

/-- Configuration file could not be read. -/
def settingsUnread : Code := ⟨"E005"⟩

/-- Configuration file is not valid TOML for the expected schema. -/
def settingsMalformed : Code := ⟨"E006"⟩

/-- Type model file could not be read. -/
def modelUnread : Code := ⟨"E007"⟩

/-- Type model file is not valid TOML or JSON. -/
def modelMalformed : Code := ⟨"E008"⟩

/-- Type model declares duplicate or unknown types. -/
def modelInvalid : Code := ⟨"E009"⟩

/-! ### Reading tokens. -/

/-- Character not valid in an expression. -/
def invalidCharacter : Code := ⟨"E020"⟩

/-- String literal is missing its closing quote. -/
def unterminatedString : Code := ⟨"E021"⟩

/-- Numeric literal is malformed or out of range. -/
def invalidNumber : Code := ⟨"E022"⟩

/-- Identifier exceeds the maximum length. -/
def identifierTooLong : Code := ⟨"E023"⟩

/-- String literal exceeds the maximum size. -/
def stringTooLarge : Code := ⟨"E024"⟩

/-- String literal contains an invalid escape sequence. -/
def invalidEscape : Code := ⟨"E025"⟩

/-- String or character literal is malformed. -/
def invalidStringLiteral : Code := ⟨"E026"⟩

/-! ### Grammar. -/

/-- An expression was expected. -/
def expressionExpected : Code := ⟨"E040"⟩

/-- A specific token was expected. -/
def tokenExpected : Code := ⟨"E041"⟩

/-- Out arguments must use the discard variable. -/
def invalidOutKeyword : Code := ⟨"E042"⟩

/-- Expression nesting exceeds the maximum depth. -/
def tooDeep : Code := ⟨"E043"⟩

/-- Expression uses a construct that cannot be analyzed. -/
def unsupportedConstruct : Code := ⟨"E044"⟩

/-- Expression text exceeds the maximum analyzable size. -/
def sourceTooLarge : Code := ⟨"E045"⟩

/-- Caret offset lies outside the text or inside a character. -/
def invalidCaret : Code := ⟨"E046"⟩

/-! ### Typing. -/

/-- Identifier is not a keyword, type, parameter or member. -/
def unknownIdentifier : Code := ⟨"E060"⟩

/-- Type has no such property or field. -/
def unknownMember : Code := ⟨"E061"⟩

/-- No overload accepts the given arguments. -/
def noApplicableMethod : Code := ⟨"E062"⟩

/-- Type cannot be indexed with the given arguments. -/
def noApplicableIndexer : Code := ⟨"E063"⟩

/-- Operator cannot be applied to the operand types. -/
def incompatibleOperands : Code := ⟨"E064"⟩

/-- Type name used without a member access or conversion. -/
def typeAccessIncomplete : Code := ⟨"E065"⟩

/-- Type name is not registered. -/
def unresolvedType : Code := ⟨"E066"⟩

/-- Expression has the wrong type for its position. -/
def typeMismatch : Code := ⟨"E067"⟩

/-! ### Fragments. -/

/-- Fragment neither compiles nor names a well-known type. -/
def fragmentUnresolved : Code := ⟨"E080"⟩

/-! ### What went well. -/

/-- The journal is open. -/
def ready : Code := ⟨"I001"⟩

/-- Settings were read. -/
def settingsLoaded : Code := ⟨"I002"⟩

/-- A type model became a registry. -/
def modelLoaded : Code := ⟨"I003"⟩

/-- The trailing fragment was found. -/
def fragmentLocated : Code := ⟨"I010"⟩

/-- An expression has a type. -/
def expressionCompiled : Code := ⟨"I011"⟩

/-- Legacy keywords were replaced. -/
def legacyKeywordsReplaced : Code := ⟨"I012"⟩

/-- A fragment is the name of a type. -/
def typeNameMatched : Code := ⟨"I013"⟩

/-- An analysis was answered. -/
def analysisCompleted : Code := ⟨"I014"⟩

/-- A completion list was made. -/
def completionListBuilt : Code := ⟨"I015"⟩

end Code

/-! ## §2. Entries. -/

/-- How grave a failure is. -/
inductive Severity where
  | critical
  | high
  | medium
  | low
  deriving Repr, DecidableEq, Inhabited

/-- The name of a severity. -/
def Severity.name : Severity → String
  | critical => "Critical"
  | high => "High"
  | medium => "Medium"
  | low => "Low"

/-- What is registered about the code of a failure. -/
structure Code.Entry where
  code : Code
  /-- The part of the work in which the failure arises. -/
  category : String
  severity : Severity
  /-- Whether the analysis of other texts can go on. -/
  recoverable : Bool
  /-- Whether the caller has to stop. -/
  halts : Bool
  description : String
  /-- What the reader of the report can do. -/
  action : String
  deriving Repr, Inhabited

namespace Code

/-- Every registered failure. -/
def entries : List Entry :=
  [
    ⟨internal, "System", .critical, false, true,
      "Critical internal system error",
      "File a bug report with the expression that triggered it"⟩,
    ⟨initialization, "System", .critical, false, true,
      "System initialization failure",
      "Check logging configuration and environment variables"⟩,
    ⟨settingsUnread, "Configuration", .medium, true, false,
      "Configuration file could not be read",
      "Check the configuration path and permissions"⟩,
    ⟨settingsMalformed, "Configuration", .medium, true, false,
      "Configuration file is not valid TOML for the expected schema",
      "Fix the reported key or remove it to use the default"⟩,
    ⟨modelUnread, "Configuration", .high, false, true,
      "Type model file could not be read",
      "Check the model path and permissions"⟩,
    ⟨modelMalformed, "Configuration", .high, false, true,
      "Type model file is not valid TOML or JSON",
      "Fix the model file syntax"⟩,
    ⟨modelInvalid, "Configuration", .high, false, true,
      "Type model declares duplicate or unknown types",
      "Declare each type once and name an existing context type"⟩,
    ⟨invalidCharacter, "Lexical", .low, true, false,
      "Character not valid in an expression",
      "Remove or quote the character"⟩,
    ⟨unterminatedString, "Lexical", .low, true, false,
      "String literal is missing its closing quote",
      "Close the string literal"⟩,
    ⟨invalidNumber, "Lexical", .low, true, false,
      "Numeric literal is malformed or out of range",
      "Check digits, exponent and suffix"⟩,
    ⟨identifierTooLong, "Lexical", .medium, true, false,
      "Identifier exceeds the maximum length",
      "Shorten the identifier"⟩,
    ⟨stringTooLarge, "Lexical", .medium, true, false,
      "String literal exceeds the maximum size",
      "Split the literal"⟩,
    ⟨invalidEscape, "Lexical", .low, true, false,
      "String literal contains an invalid escape sequence",
      "Use a recognized escape or double the backslash"⟩,
    ⟨invalidStringLiteral, "Lexical", .low, true, false,
      "String or character literal is malformed",
      "Check quoting and literal length"⟩,
    ⟨expressionExpected, "Syntax", .low, true, false,
      "An expression was expected",
      "Complete the expression"⟩,
    ⟨tokenExpected, "Syntax", .low, true, false,
      "A specific token was expected",
      "Insert the expected token"⟩,
    ⟨invalidOutKeyword, "Syntax", .low, true, false,
      "Out arguments must use the discard variable",
      "Write 'out _'"⟩,
    ⟨tooDeep, "Syntax", .high, true, false,
      "Expression nesting exceeds the maximum depth",
      "Simplify the expression"⟩,
    ⟨unsupportedConstruct, "Syntax", .medium, false, false,
      "Expression uses a construct that cannot be analyzed",
      "Use np(...) instead of the null propagating operator"⟩,
    ⟨sourceTooLarge, "Syntax", .high, false, false,
      "Expression text exceeds the maximum analyzable size",
      "Analyze a smaller expression"⟩,
    ⟨invalidCaret, "Syntax", .medium, false, false,
      "Caret offset lies outside the text or inside a character",
      "Pass a caret offset on a character boundary"⟩,
    ⟨unknownIdentifier, "Compilation", .low, true, false,
      "Identifier is not a keyword, type, parameter or member",
      "Check the identifier spelling"⟩,
    ⟨unknownMember, "Compilation", .low, true, false,
      "Type has no such property or field",
      "Check the member name against the type"⟩,
    ⟨noApplicableMethod, "Compilation", .low, true, false,
      "No overload accepts the given arguments",
      "Check the argument count and types"⟩,
    ⟨noApplicableIndexer, "Compilation", .low, true, false,
      "Type cannot be indexed with the given arguments",
      "Check the index arguments"⟩,
    ⟨incompatibleOperands, "Compilation", .low, true, false,
      "Operator cannot be applied to the operand types",
      "Convert the operands to compatible types"⟩,
    ⟨typeAccessIncomplete, "Compilation", .low, true, false,
      "Type name used without a member access or conversion",
      "Follow the type name with '.' or '('"⟩,
    ⟨unresolvedType, "Compilation", .medium, true, false,
      "Type name is not registered",
      "Register the type in the type model"⟩,
    ⟨typeMismatch, "Compilation", .low, true, false,
      "Expression has the wrong type for its position",
      "Convert the expression to the expected type"⟩,
    ⟨fragmentUnresolved, "Resolution", .low, true, false,
      "Fragment neither compiles nor names a well-known type",
      "Keep typing; completion is unavailable for this fragment"⟩]

/-- The entry of a code. -/
def entry? (c : Code) : Option Entry := entries.find? fun e => e.code == c

/-! ## §3. What holds of any code. -/

/-- Whether the code has an entry. -/
def isRegistered (c : Code) : Bool := c.entry?.isSome

/-- The severity; medium without an entry. -/
def severity (c : Code) : Severity := c.entry?.elim .medium Entry.severity

/-- Whether work can go on; it can without an entry. -/
def recoverable (c : Code) : Bool := c.entry?.elim true Entry.recoverable

/-- Whether the caller has to stop; not without an entry. -/
def halts (c : Code) : Bool := c.entry?.elim false Entry.halts

/-- What the failure is. -/
def description (c : Code) : String := c.entry?.elim "Unknown error" Entry.description

/-- What to do about the failure. -/
def action (c : Code) : String := c.entry?.elim "No specific action available" Entry.action

/-- The part of the work that the failure belongs to. -/
def category (c : Code) : String := c.entry?.elim "Unknown" Entry.category

end Code

end TypeAhead
