/-
  TypeAhead.Legacy — OLD SPELLINGS OF TYPES.

  Older expressions spell predefined types by names that are no keywords any
  more.  A text that fails is tried once more with these replaced; a word after
  a dot is the name of a member and stays.
-/
import TypeAhead.Token.Cursor

namespace TypeAhead.Legacy

/-- The old spellings and what they are now; the case counts. -/
def keywords : List (String × String) :=
  [("boolean", "bool"), ("datetime", "DateTime"), ("datetimeoffset", "DateTimeOffset"),
    ("guid", "Guid"), ("int16", "short"), ("int32", "int"), ("int64", "long"),
    ("single", "float"), ("timespan", "TimeSpan"), ("uint32", "uint"), ("uint64", "ulong"),
    ("uint16", "ushort"), ("math", "Math"), ("convert", "Convert")]

/-- A token to be replaced, and by what. -/
abbrev Edit := Token × String

/-- The keyword for a token, given the kind of the token before it. -/
def edit? (previous : Option TokenKind) (token : Token) : Option Edit :=
  if token.kind = .identifier && previous ≠ some .dot then
    (keywords.lookup token.text).map fun keyword => (token, keyword)
  else none

/-- What is to be replaced among the tokens of a text. -/
def edits (tokens : List Token) : List Edit :=
  ((none :: tokens.map fun t => some t.kind).zip tokens).filterMap fun (previous, token) =>
    edit? previous token

/-- A text whose old spellings are being replaced. -/
structure Draft where
  written : String := ""
  /-- What is left of the old text. -/
  rest : List Char
  /-- The offset where it starts. -/
  offset : Nat := 0

/-- Writes what stands before a token, and its keyword. -/
def Draft.apply (d : Draft) (e : Edit) : Draft :=
  match Text.splitBytes? [] (e.1.start - d.offset) d.rest with
  | none => d
  | some (gap, rest) =>
    { written := d.written ++ String.ofList gap ++ e.2,
      rest := (Text.dropBytes? (e.1.stop - e.1.start) rest).getD [], offset := e.1.stop }

/-- The whole text. -/
def Draft.text (d : Draft) : String := d.written ++ String.ofList d.rest

/-- The text with its old spellings replaced; `none` if there are none, or if the text is not
made of tokens. -/
def replace? (text : String) : Option String :=
  match tokenize text with
  | .error _ => none
  | .ok tokens =>
    match edits tokens with
    | [] => none
    | edits => some (edits.foldl Draft.apply { rest := text.toList }).text

end TypeAhead.Legacy
