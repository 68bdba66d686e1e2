/-
  TypeAhead.Token.Basic — TOKENS OF THE EXPRESSION LANGUAGE.

  A token is a kind, the text it was read from and the byte offset where it
  starts.  Every symbol has a kind of its own; the word operators (`and`, `not`,
  `eq`, …) are other spellings of symbols and keep their text.
-/
import TypeAhead.Text.Case

namespace TypeAhead

/-! ## §1. Kinds. -/

/-- The kinds of tokens. -/
inductive TokenKind where
  /-- The end of the text. -/
  | finish
  | identifier
  | stringLiteral
  | integerLiteral
  | realLiteral
  | dot
  | comma
  | colon
  | openParen
  | closeParen
  | openBracket
  | closeBracket
  | openCurly
  | closeCurly
  | question
  /-- `??`, the left operand or else the right one. -/
  | coalesce
  /-- `?.`, member access that passes null on; known only to be refused. -/
  | propagate
  /-- `=>`, a projection. -/
  | arrow
  | exclamation
  | doubleAmpersand
  | ampersand
  | doubleBar
  | bar
  | equal
  | doubleEqual
  | notEqual
  | lessGreater
  | lessThan
  | lessThanEqual
  | greaterThan
  | greaterThanEqual
  | shiftLeft
  | shiftRight
  | plus
  | minus
  | asterisk
  | slash
  | percent
  deriving Repr, DecidableEq, Inhabited

namespace TokenKind

/-- Every kind, in the order of the table of kinds. -/
def all : List TokenKind :=
  [finish, identifier, stringLiteral, integerLiteral, realLiteral, dot, comma, colon, openParen,
    closeParen, openBracket, closeBracket, openCurly, closeCurly, question, coalesce, propagate,
    arrow, exclamation, doubleAmpersand, ampersand, doubleBar, bar, equal, doubleEqual, notEqual,
    lessGreater, lessThan, lessThanEqual, greaterThan, greaterThanEqual, shiftLeft, shiftRight,
    plus, minus, asterisk, slash, percent]

/-- The spelling of a symbol, and a description of the other kinds. -/
def spelling : TokenKind → String
  | finish => "end of expression"
  | identifier => "identifier"
  | stringLiteral => "string literal"
  | integerLiteral => "integer literal"
  | realLiteral => "real literal"
  | dot => "."
  | comma => ","
  | colon => ":"
  | openParen => "("
  | closeParen => ")"
  | openBracket => "["
  | closeBracket => "]"
  | openCurly => "\x7b"
  | closeCurly => "\x7d"
  | question => "?"
  | coalesce => "??"
  | propagate => "?."
  | arrow => "=>"
  | exclamation => "!"
  | doubleAmpersand => "&&"
  | ampersand => "&"
  | doubleBar => "||"
  | bar => "|"
  | equal => "="
  | doubleEqual => "=="
  | notEqual => "!="
  | lessGreater => "<>"
  | lessThan => "<"
  | lessThanEqual => "<="
  | greaterThan => ">"
  | greaterThanEqual => ">="
  | shiftLeft => "<<"
  | shiftRight => ">>"
  | plus => "+"
  | minus => "-"
  | asterisk => "*"
  | slash => "/"
  | percent => "%"

/-- The name of the kind, as tokens are shown. -/
def name : TokenKind → String
  | finish => "End"
  | identifier => "Identifier"
  | stringLiteral => "StringLiteral"
  | integerLiteral => "IntegerLiteral"
  | realLiteral => "RealLiteral"
  | dot => "Dot"
  | comma => "Comma"
  | colon => "Colon"
  | openParen => "OpenParen"
  | closeParen => "CloseParen"
  | openBracket => "OpenBracket"
  | closeBracket => "CloseBracket"
  | openCurly => "OpenCurlyParen"
  | closeCurly => "CloseCurlyParen"
  | question => "Question"
  | coalesce => "NullCoalescing"
  | propagate => "NullPropagation"
  | arrow => "Lambda"
  | exclamation => "Exclamation"
  | doubleAmpersand => "DoubleAmpersand"
  | ampersand => "Ampersand"
  | doubleBar => "DoubleBar"
  | bar => "Bar"
  | equal => "Equal"
  | doubleEqual => "DoubleEqual"
  | notEqual => "ExclamationEqual"
  | lessGreater => "LessGreater"
  | lessThan => "LessThan"
  | lessThanEqual => "LessThanEqual"
  | greaterThan => "GreaterThan"
  | greaterThanEqual => "GreaterThanEqual"
  | shiftLeft => "ShiftLeft"
  | shiftRight => "ShiftRight"
  | plus => "Plus"
  | minus => "Minus"
  | asterisk => "Asterisk"
  | slash => "Slash"
  | percent => "Percent"

/-- The kind of a name. -/
def ofName? (text : String) : Option TokenKind := all.find? fun k => k.name == text

/-- A literal of any sort. -/
def isLiteral (k : TokenKind) : Bool :=
  k == stringLiteral || k == integerLiteral || k == realLiteral

/-- A literal that is a number. -/
def isNumber (k : TokenKind) : Bool := k == integerLiteral || k == realLiteral

/-- A symbol that compares two operands. -/
def isComparison : TokenKind → Bool
  | equal | doubleEqual | notEqual | lessGreater | lessThan | lessThanEqual | greaterThan
  | greaterThanEqual => true
  | _ => false

/-- The symbol that a word stands for, whatever its case. -/
def ofWord? (word : String) : Option TokenKind :=
  match Text.lower word with
  | "eq" => some equal
  | "ne" | "neq" => some notEqual
  | "lt" => some lessThan
  | "le" => some lessThanEqual
  | "gt" => some greaterThan
  | "ge" => some greaterThanEqual
  | "and" => some doubleAmpersand
  | "or" => some doubleBar
  | "not" => some exclamation
  | "mod" => some percent
  | _ => none

theorem mem_all (k : TokenKind) : k ∈ all := by cases k <;> decide

end TokenKind

/-! ## §2. Tokens. -/

/-- A piece of a text with its kind and the byte offset where it starts. -/
structure Token where
  kind : TokenKind
  text : String
  start : Nat
  deriving Repr, DecidableEq, Inhabited

namespace Token

/-- The end of a text of `size` bytes. -/
def finish (size : Nat) : Token := ⟨.finish, "", size⟩

/-- The offset just past the token's text. -/
def stop (t : Token) : Nat := t.start + t.text.utf8ByteSize

/-- Whether the token ends the text. -/
def isFinish (t : Token) : Bool := t.kind == .finish

/-- The token with its kind, text and offset, as it is shown. -/
def render (t : Token) : String :=
  if t.isFinish then s!"<end>@{t.start}" else s!"{t.kind.name}('{t.text}')@{t.start}"

/-- The numeric literal with the minus before it: it starts where the minus does. -/
def negated (literal minus : Token) : Token :=
  { literal with text := "-" ++ literal.text, start := minus.start }

end Token

/-- The name that an identifier stands for: a leading `@` only protects it from being a
keyword, unless it stands alone. -/
def plainName (word : String) : String :=
  match word.toList with
  | '@' :: c :: cs => String.ofList (c :: cs)
  | _ => word

end TypeAhead
