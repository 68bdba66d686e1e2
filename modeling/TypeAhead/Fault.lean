/-
  TypeAhead.Fault — WHAT CAN BE WRONG WITH AN EXPRESSION.

  A `Cause` says what is wrong, a `Fault` also where, as a byte offset into the
  text under analysis.  A `Failure` is why an analysis has no answer at all:
  a fault, a construct that is refused wherever it stands, or an input that is
  not analysed.  The wording and the code of each cause are given here once.
-/
import TypeAhead.Limits
import TypeAhead.Code

namespace TypeAhead

/-! ## §1. Causes. -/

/-- What is wrong at a place of an expression. -/
inductive Cause where
  /-- A character that starts no token. -/
  | invalidCharacter (c : Char)
  | unterminatedString
  | digitExpected
  | identifierTooLong (characters : Nat)
  | stringTooLarge (bytes : Nat)
  /-- A literal without room for two quotes. -/
  | literalTooShort
  | literalWithoutQuote
  | literalNotClosed
  /-- An escape that names no character; `reason` says which. -/
  | invalidEscape (reason : String)
  /-- A literal in single quotes with more than one character. -/
  | notOneCharacter
  | expressionExpected
  /-- The given word or symbol is missing. -/
  | expected (token : String)
  | colonExpected
  | openParenExpected
  | openCurlyExpected
  | openParenOrIdentifierExpected
  | closeParenOrOperatorExpected
  | closeParenOrCommaExpected
  | closeBracketExpected
  | closeBracketOrCommaExpected
  | dotOrOpenParenExpected
  | identifierExpected
  /-- An `out` argument that is not the discard `_`. -/
  | outWithoutDiscard
  /-- Something is left after a whole expression. -/
  | leftover
  /-- Rules or scopes nest too deep. -/
  | tooDeep
  | unknownIdentifier (name : String)
  | unknownMember (member owner : String)
  | noApplicableMethod (method owner : String)
  | noApplicableIndexer (owner : String)
  | noMatchingConstructor (owner : String)
  | incompatibleOperands (operator left right : String)
  | incompatibleOperand (operator operand : String)
  | neitherConverts (left right : String)
  /-- The expression does not have the type that its place needs. -/
  | notOfType (wanted : String)
  | argumentCount (function : String) (wanted : Nat)
  | typeNotFound (name : String)
  /-- A type that the model mentions and does not hold. -/
  | unresolvedType (name : String)
  | missingAlias
  | invalidInteger (text : String)
  | invalidReal (text : String)
  /-- No scope encloses the one that the word looks out of. -/
  | noParent (word : String)
  deriving Repr, DecidableEq, Inhabited

namespace Cause

/-- The wording of a cause. -/
def message : Cause → String
  | invalidCharacter c => s!"Syntax error '{c}'"
  | unterminatedString => "Unterminated string literal"
  | digitExpected => "Digit expected"
  | identifierTooLong n => s!"Identifier too long: {n} characters (max {Limits.identifierLength})"
  | stringTooLarge n => s!"String literal too large: {n} bytes (max {Limits.literalBytes})"
  | literalTooShort => "String literal must be at least two characters long"
  | literalWithoutQuote => "String literal must start with a single or double quote"
  | literalNotClosed => "String literal is not closed by a matching quote"
  | invalidEscape reason => s!"Invalid escape sequence: {reason}"
  | notOneCharacter => "Character literal must contain exactly one character"
  | expressionExpected => "Expression expected"
  | expected token => s!"'{token}' expected"
  | colonExpected => "':' expected"
  | openParenExpected => "'(' expected"
  | openCurlyExpected => "'\x7b' expected"
  | openParenOrIdentifierExpected => "'(' or identifier expected"
  | closeParenOrOperatorExpected => "')' or operator expected"
  | closeParenOrCommaExpected => "')' or ',' expected"
  | closeBracketExpected => "']' expected"
  | closeBracketOrCommaExpected => "']' or ',' expected"
  | dotOrOpenParenExpected => "'.' or '(' or string literal expected"
  | identifierExpected => "Identifier expected"
  | outWithoutDiscard => "When using an out variable, a discard '_' is required"
  | leftover => "Syntax error"
  | tooDeep => s!"Expression nesting exceeds the maximum depth of {Limits.nesting}"
  | unknownIdentifier name => s!"Unknown identifier '{name}'"
  | unknownMember member owner =>
    s!"No property or field '{member}' exists in type '{owner}'"
  | noApplicableMethod method owner =>
    s!"No applicable method '{method}' exists in type '{owner}'"
  | noApplicableIndexer owner => s!"No applicable indexer exists in type '{owner}'"
  | noMatchingConstructor owner => s!"No matching constructor in type '{owner}'"
  | incompatibleOperands operator left right =>
    s!"Operator '{operator}' incompatible with operand types '{left}' and '{right}'"
  | incompatibleOperand operator operand =>
    s!"Operator '{operator}' incompatible with operand type '{operand}'"
  | neitherConverts left right =>
    s!"Neither of the types '{left}' and '{right}' converts to the other"
  | notOfType wanted => s!"Expression of type '{wanted}' expected"
  | argumentCount function wanted => s!"The '{function}' function requires {wanted} arguments"
  | typeNotFound name => s!"Type '{name}' not found"
  | unresolvedType name => s!"Type '{name}' is referenced by the type model but not registered"
  | missingAlias => "Expression is missing an 'as' clause"
  | invalidInteger text => s!"Invalid integer literal '{text}'"
  | invalidReal text => s!"Invalid real literal '{text}'"
  | noParent word => s!"No enclosing scope for '{word}'"

/-- The code under which a cause is reported. -/
def code : Cause → Code
  | invalidCharacter _ => .invalidCharacter
  | unterminatedString => .unterminatedString
  | digitExpected | invalidInteger _ | invalidReal _ => .invalidNumber
  | identifierTooLong _ => .identifierTooLong
  | stringTooLarge _ => .stringTooLarge
  | invalidEscape _ => .invalidEscape
  | literalTooShort | literalWithoutQuote | literalNotClosed | notOneCharacter =>
    .invalidStringLiteral
  | expressionExpected => .expressionExpected
  | expected _ | colonExpected | openParenExpected | openCurlyExpected
  | openParenOrIdentifierExpected | closeParenOrOperatorExpected | closeParenOrCommaExpected
  | closeBracketExpected | closeBracketOrCommaExpected | identifierExpected | leftover =>
    .tokenExpected
  | outWithoutDiscard => .invalidOutKeyword
  | tooDeep => .tooDeep
  | unknownIdentifier _ | noParent _ => .unknownIdentifier
  | unknownMember .. => .unknownMember
  | noApplicableMethod .. | noMatchingConstructor _ | argumentCount .. => .noApplicableMethod
  | noApplicableIndexer _ => .noApplicableIndexer
  | incompatibleOperands .. | incompatibleOperand .. | neitherConverts .. => .incompatibleOperands
  | dotOrOpenParenExpected => .typeAccessIncomplete
  | typeNotFound _ | unresolvedType _ => .unresolvedType
  | notOfType _ | missingAlias => .typeMismatch

end Cause

/-! ## §2. Faults and failures. -/

/-- A cause at a byte offset of the text. -/
structure Fault where
  cause : Cause
  position : Nat
  deriving Repr, DecidableEq, Inhabited

/-- The wording of a fault, with its place. -/
def Fault.message (f : Fault) : String := s!"{f.cause.message} (at index {f.position})"

/-- Why an analysis has no answer. -/
inductive Failure where
  /-- The expression is wrong; work on a part of it may go on. -/
  | fault (f : Fault)
  /-- `?.` stands at the offset; it is refused and never worked around. -/
  | propagation (position : Nat)
  /-- The caret is past the end or inside a character. -/
  | invalidCaret (caret size : Nat)
  /-- The text has too many bytes. -/
  | sourceTooLarge (size : Nat)
  deriving Repr, DecidableEq, Inhabited

namespace Failure

/-- The wording of a failure. -/
def message : Failure → String
  | fault f => f.message
  | propagation position =>
    "An expression tree lambda may not contain a null propagating operator. Use the 'np()' or " ++
      s!"'np(...)' (null-propagation) function instead. (at index {position})"
  | invalidCaret caret size =>
    s!"Caret {caret} is outside the text or not on a character boundary (length {size})"
  | sourceTooLarge size => s!"Expression text is {size} bytes (max {Limits.sourceBytes})"

/-- The code under which a failure is reported. -/
def code : Failure → Code
  | fault f => f.cause.code
  | propagation _ => .unsupportedConstruct
  | invalidCaret .. => .invalidCaret
  | sourceTooLarge _ => .sourceTooLarge

/-- Whether the expression itself is wrong. -/
def isFault : Failure → Bool
  | fault _ => true
  | _ => false

/-- The offset of a failure that has one. -/
def position? : Failure → Option Nat
  | fault f => some f.position
  | propagation position => some position
  | _ => none

end Failure

end TypeAhead
