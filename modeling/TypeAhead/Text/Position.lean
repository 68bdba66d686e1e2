/-
  TypeAhead.Text.Position — LINES AND COLUMNS.

  A byte offset becomes a line and a column only where it is shown to a person.
  Lines and columns count from one, columns in characters; an offset past the
  end means the end, and one inside a character means that character.
-/
import TypeAhead.Text.Bytes

namespace TypeAhead.Text

/-! ## §1. Positions. -/

/-- A place in a text. -/
structure Position where
  /-- Byte offset from the start of the text. -/
  offset : Nat
  /-- Line, from one. -/
  line : Nat
  /-- Column in characters, from one. -/
  column : Nat
  deriving Repr, DecidableEq, Inhabited

/-- Line and column after reading the characters that end within `budget` bytes. -/
def Position.advance (line column : Nat) : Nat → List Char → Nat × Nat
  | _, [] => (line, column)
  | budget, c :: cs =>
    if c.utf8Size ≤ budget then
      if c = '\n' then advance (line + 1) 1 (budget - c.utf8Size) cs
      else advance line (column + 1) (budget - c.utf8Size) cs
    else (line, column)

/-- The place of a byte offset in `text`. -/
def Position.locate (text : List Char) (offset : Nat) : Position :=
  let offset := min offset (byteSize text)
  let (line, column) := Position.advance 1 1 offset text
  ⟨offset, line, column⟩

/-- The place as `line:column`. -/
def Position.render (p : Position) : String := s!"{p.line}:{p.column}"

/-! ## §2. Spans. -/

/-- A stretch of a text, from `start` up to but without `stop`. -/
structure Span where
  start : Position
  stop : Position
  deriving Repr, DecidableEq, Inhabited

/-- The span of two offsets; an end before the start means the start. -/
def Span.between (text : List Char) (start stop : Nat) : Span :=
  ⟨.locate text start, .locate text (max stop start)⟩

/-- The empty span at an offset. -/
def Span.point (text : List Char) (offset : Nat) : Span :=
  ⟨.locate text offset, .locate text offset⟩

/-- The bytes that the span covers. -/
def Span.size (s : Span) : Nat := s.stop.offset - s.start.offset

/-- Whether the span covers nothing. -/
def Span.isEmpty (s : Span) : Bool := s.start.offset == s.stop.offset

/-- What the span covers of `text`; `none` if it does not fit. -/
def Span.slice? (s : Span) (text : List Char) : Option (List Char) :=
  if s.start.offset ≤ s.stop.offset then Text.slice? s.start.offset s.stop.offset text else none

/-- The span as `line:column-column`, or with both lines where it crosses one. -/
def Span.render (s : Span) : String :=
  if s.start.line = s.stop.line then s!"{s.start.line}:{s.start.column}-{s.stop.column}"
  else s!"{s.start.render}-{s.stop.render}"

end TypeAhead.Text
