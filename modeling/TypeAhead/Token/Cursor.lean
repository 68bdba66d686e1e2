/-
  TypeAhead.Token.Cursor — WALKING ALONG THE TOKENS OF A TEXT.

  A cursor stands on one token of a text and reads the next one only when it is
  asked to, so a fault of the text is met no sooner than the walk gets there.
  A cursor is a value: keeping the old one is all that a look ahead needs.
  The current token may be reworded in place; what is read next stays the same.
-/
import TypeAhead.Token.Scan

namespace TypeAhead

/-- A place among the tokens of a text. -/
structure Cursor where
  /-- The bytes of the whole text. -/
  size : Nat
  /-- The offset from which the next token is read. -/
  offset : Nat
  /-- The characters from there on. -/
  rest : List Char
  /-- The token on which the cursor stands. -/
  current : Token
  deriving Repr, Inhabited

namespace Cursor

/-! ## §1. Moving. -/

/-- The cursor on the token at the front of `rest`. -/
def read (size : Nat) (previous : Option TokenKind) (offset : Nat) (rest : List Char) :
    Except Fault Cursor :=
  match Scan.token previous offset rest with
  | .error fault => .error fault
  | .ok (token, rest) => .ok ⟨size, token.stop, rest, token⟩

/-- The cursor on the first token. -/
def open? (text : List Char) : Except Fault Cursor :=
  read (Text.byteSize text) none 0 text

/-- The cursor on the next token; the end of the text repeats. -/
def next (c : Cursor) : Except Fault Cursor :=
  if c.current.isFinish then .ok c else read c.size (some c.current.kind) c.offset c.rest

/-- The token after the current one. -/
def peek (c : Cursor) : Except Fault Token := c.next.map Cursor.current

/-- The cursor with another text for its current token. -/
def reword (c : Cursor) (text : String) : Cursor :=
  { c with current := { c.current with text := text } }

/-! ## §2. Looking at the current token. -/

/-- A fault at the current token. -/
def fault (c : Cursor) (cause : Cause) : Fault := ⟨cause, c.current.start⟩

/-- Whether the current token is of the kind. -/
def isKind (c : Cursor) (kind : TokenKind) : Bool := c.current.kind == kind

/-- Whether the current token is of one of the kinds. -/
def isAny (c : Cursor) (kinds : List TokenKind) : Bool := kinds.contains c.current.kind

/-- Whether the current token is the given word, whatever its case. -/
def isWord (c : Cursor) (word : String) : Bool :=
  c.current.kind == .identifier && Text.sameWord c.current.text word

/-- Whether the current token is one of the words, spelled so, or one of the kinds. -/
def isOneOf (c : Cursor) (words : List String) (kinds : List TokenKind) : Bool :=
  (c.current.kind == .identifier && words.contains c.current.text) ||
    kinds.contains c.current.kind

/-- Faults with `cause` unless the current token is of the kind. -/
def require (c : Cursor) (kind : TokenKind) (cause : Cause) : Except Fault Unit :=
  if c.current.kind = kind then .ok () else .error (c.fault cause)

/-! ## §3. All tokens. -/

/-- The tokens from the current one on, after those of `read`, the last one first. -/
def collect : Nat → List Token → Cursor → Except Fault (List Token)
  | 0, read, c => .ok (c.current :: read).reverse
  | budget + 1, read, c =>
    if c.current.isFinish then .ok (c.current :: read).reverse
    else
      match c.next with
      | .error fault => .error fault
      | .ok next => collect budget (c.current :: read) next

end Cursor

/-- All tokens of a text, the end included. -/
def tokenize (text : String) : Except Fault (List Token) :=
  match Cursor.open? text.toList with
  | .error fault => .error fault
  | .ok c => c.collect (c.size + 1) []

end TypeAhead
