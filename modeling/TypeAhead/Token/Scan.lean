/-
  TypeAhead.Token.Scan — READING ONE TOKEN.

  The scanner reads the token at the front of a list of characters and returns
  it with the characters after it.  It takes the longest token that fits, skips
  blanks before it, and looks at no more than the kind of the token before:
  a word directly after a dot is a member name, so `x.Or` is not an operator.

  Each class of lexemes has a function of its own that splits the lexeme off
  the front: symbols, words, numbers and quoted literals.
-/
import TypeAhead.Text.Blank
import TypeAhead.Text.Bytes
import TypeAhead.Text.Numeric
import TypeAhead.Token.Basic
import TypeAhead.Fault

namespace TypeAhead.Scan

open Text

/-! ## §1. Symbols. -/

/-- The longest symbol that starts with `c`, given the character after it. -/
def symbol? (c : Char) (next : Option Char) : Option TokenKind :=
  match c with
  | '!' => if next = some '=' then some .notEqual else some .exclamation
  | '%' => some .percent
  | '&' => if next = some '&' then some .doubleAmpersand else some .ampersand
  | '(' => some .openParen
  | ')' => some .closeParen
  | '{' => some .openCurly
  | '}' => some .closeCurly
  | '*' => some .asterisk
  | '+' => some .plus
  | ',' => some .comma
  | '-' => some .minus
  | '.' => some .dot
  | '/' => some .slash
  | ':' => some .colon
  | '<' =>
    if next = some '=' then some .lessThanEqual
    else if next = some '>' then some .lessGreater
    else if next = some '<' then some .shiftLeft
    else some .lessThan
  | '=' =>
    if next = some '=' then some .doubleEqual
    else if next = some '>' then some .arrow
    else some .equal
  | '>' =>
    if next = some '=' then some .greaterThanEqual
    else if next = some '>' then some .shiftRight
    else some .greaterThan
  | '?' =>
    if next = some '?' then some .coalesce
    else if next = some '.' then some .propagate
    else some .question
  | '[' => some .openBracket
  | ']' => some .closeBracket
  | '|' => if next = some '|' then some .doubleBar else some .bar
  | _ => none

/-! ## §2. Words. -/

/-- What starts an identifier: a letter or one of five marks. -/
def startsWord (c : Char) : Bool :=
  isAlphabetic c || c == '@' || c == '_' || c == '$' || c == '^' || c == '~'

/-- The kind of a word: after a dot it is always an identifier. -/
def wordKind (previous : Option TokenKind) (word : String) : TokenKind :=
  if previous = some .dot then .identifier else (TokenKind.ofWord? word).getD .identifier

/-- The word that starts with `first`. -/
def word (previous : Option TokenKind) (start : Nat) (first : Char) (cs : List Char) :
    Except Fault (TokenKind × List Char) :=
  let lexeme := first :: cs.takeWhile isWordChar
  if lexeme.length > Limits.identifierLength then
    .error ⟨.identifierTooLong lexeme.length, start⟩
  else .ok (wordKind previous (String.ofList lexeme), lexeme)

/-! ## §3. Numbers. -/

/-- A digit of a hexadecimal number. -/
def isHexDigit (c : Char) : Bool :=
  c.isDigit || ('a' ≤ c && c ≤ 'f') || ('A' ≤ c && c ≤ 'F')

/-- The suffix of an integer at the front: `U`, `L`, or both in either order. -/
def integerSuffix : List Char → List Char
  | c :: d :: _ =>
    if c.toLower = 'u' then if d.toLower = 'l' then [c, d] else [c]
    else if c.toLower = 'l' then if d.toLower = 'u' then [c, d] else [c]
    else []
  | [c] => if c.toLower = 'u' || c.toLower = 'l' then [c] else []
  | [] => []

/-- A point with at least one digit after it; a point before anything else is a member dot. -/
def fraction : List Char → List Char
  | '.' :: cs =>
    let digits := cs.takeWhile Char.isDigit
    if digits.isEmpty then [] else '.' :: digits
  | _ => []

/-- The sign of an exponent. -/
def sign : List Char → List Char
  | '+' :: _ => ['+']
  | '-' :: _ => ['-']
  | _ => []

/-- An exponent; once its letter is there, a digit has to follow, else the number of
characters before the missing digit is the error. -/
def exponent : List Char → Except Nat (List Char)
  | c :: cs =>
    if c.toLower = 'e' then
      let sign := sign cs
      let digits := (cs.drop sign.length).takeWhile Char.isDigit
      if digits.isEmpty then .error (1 + sign.length) else .ok (c :: sign ++ digits)
    else .ok []
  | [] => .ok []

/-- The letter that names the type of a real number. -/
def realSuffix : List Char → List Char
  | c :: _ => if c.toLower = 'f' || c.toLower = 'd' || c.toLower = 'm' then [c] else []
  | [] => []

/-- The part of a number that makes it real: fraction, exponent and suffix. -/
def realPart (start : Nat) (cs : List Char) : Except Fault (List Char) :=
  let fraction := fraction cs
  let rest := cs.drop fraction.length
  match exponent rest with
  | .error n => .error ⟨.digitExpected, start + fraction.length + n⟩
  | .ok exponent => .ok (fraction ++ exponent ++ realSuffix (rest.drop exponent.length))

/-- The mark of a hexadecimal number after the digit `0`. -/
def hexMark? : List Char → List Char → Option Char
  | ['0'], c :: _ => if c.toLower = 'x' then some c else none
  | _, _ => none

/-- The number at the front, which starts with a digit. -/
def number (start : Nat) (cs : List Char) : Except Fault (TokenKind × List Char) :=
  let digits := cs.takeWhile Char.isDigit
  let rest := cs.drop digits.length
  match hexMark? digits rest with
  | some mark =>
    let hex := (rest.drop 1).takeWhile isHexDigit
    if hex.isEmpty then .error ⟨.digitExpected, start + 2⟩
    else .ok (.integerLiteral, '0' :: mark :: hex ++ integerSuffix (rest.drop (1 + hex.length)))
  | none =>
    let suffix := integerSuffix rest
    if suffix.isEmpty then
      match realPart (start + digits.length) rest with
      | .error fault => .error fault
      | .ok part =>
        .ok (if part.isEmpty then .integerLiteral else .realLiteral, digits ++ part)
    else .ok (.integerLiteral, digits ++ suffix)

/-! ## §4. Quoted literals. -/

/-- Splits a literal off whose opening quote is read already.  A backslash protects the
character after it, and a doubled quote goes on with the same literal.  `read` holds the
characters before, the last one first. -/
def literal? (quote : Char) (read : List Char) : List Char → Option (List Char)
  | [] => none
  | '\\' :: [] => none
  | '\\' :: c :: cs => literal? quote (c :: '\\' :: read) cs
  | c :: cs =>
    if c = quote then
      match cs with
      | d :: ds => if d = quote then literal? quote (d :: c :: read) ds
                   else some (c :: read).reverse
      | [] => some (c :: read).reverse
    else literal? quote (c :: read) cs

/-- The literal that starts with `quote`; an open one is reported at the end of the text. -/
def quoted (start : Nat) (quote : Char) (cs : List Char) :
    Except Fault (TokenKind × List Char) :=
  match literal? quote [quote] cs with
  | none => .error ⟨.unterminatedString, start + quote.utf8Size + byteSize cs⟩
  | some lexeme =>
    let size := byteSize lexeme
    if size > Limits.literalBytes then .error ⟨.stringTooLarge size, start⟩
    else .ok (.stringLiteral, lexeme)

/-! ## §5. Tokens. -/

/-- Kind and lexeme of the token that starts with `c`. -/
def lexeme (previous : Option TokenKind) (start : Nat) (c : Char) (cs : List Char) :
    Except Fault (TokenKind × List Char) :=
  match symbol? c cs.head? with
  | some kind => .ok (kind, kind.spelling.toList)
  | none =>
    if c = '"' || c = '\'' then quoted start c cs
    else if startsWord c then word previous start c cs
    else if c.isDigit then number start (c :: cs)
    else .error ⟨.invalidCharacter c, start⟩

/-- The token at the front of `cs`, which stand at offset `start`, and what follows it. -/
def token (previous : Option TokenKind) (start : Nat) (cs : List Char) :
    Except Fault (Token × List Char) :=
  let start := start + byteSize (cs.takeWhile isBlank)
  match cs.dropWhile isBlank with
  | [] => .ok (.finish start, [])
  | c :: cs =>
    match lexeme previous start c cs with
    | .error fault => .error fault
    | .ok (kind, lexeme) =>
      .ok (⟨kind, String.ofList lexeme, start⟩, (c :: cs).drop lexeme.length)

/-- The token at or after byte `start` of a text.  Where no character starts, the text is
taken to be over. -/
def tokenAt (text : List Char) (start : Nat) (previous : Option TokenKind) :
    Except Fault Token :=
  match dropBytes? start text with
  | none => .ok (.finish (byteSize text))
  | some rest => (token previous start rest).map Prod.fst

end TypeAhead.Scan
