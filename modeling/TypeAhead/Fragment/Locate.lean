/-
  TypeAhead.Fragment.Locate — THE TRAILING FRAGMENT OF A TEXT.

  While a text is being typed it is rarely a whole expression.  What matters is
  the operand at its end: the innermost one that the walk of the grammar had not
  left when the text was over or stopped making sense.  A fault of the text is
  part of the answer; only null propagation is refused.
-/
import TypeAhead.Fragment.Grammar

namespace TypeAhead

/-- The trailing fragment of a text. -/
structure Fragment where
  /-- The offset where the fragment starts; it goes on to the end of the text. -/
  start : Nat
  text : String
  /-- What stopped the walk before the end of the text. -/
  stoppedBy : Option Fault
  deriving Repr, DecidableEq, Inhabited

namespace Fragment

/-- The rule that reads a text from its first token on, given the size of the text. -/
def reader (parsing : Parsing) (size : Nat) : Locator Unit :=
  Rule.run parsing (Rule.budget size) .conditional

/-- Walks the text from its first token. -/
def walk (parsing : Parsing) (cursor : Cursor) : Walk.Outcome (List Nat) Unit :=
  (reader parsing cursor.size).run ⟨cursor, 0, []⟩

/-- The fragment of `text` at the innermost of the open operands. -/
def ofOpen (text : List Char) (starts : List Nat) (stoppedBy : Option Fault) : Fragment :=
  let start := starts.headD 0
  ⟨start, String.ofList ((Text.dropBytes? start text).getD []), stoppedBy⟩

/-- The trailing fragment of a text. -/
def locate (parsing : Parsing) (text : String) : Except Failure Fragment :=
  let cs := text.toList
  match Cursor.open? cs with
  | .error fault => .ok (ofOpen cs [] (some fault))
  | .ok cursor =>
    match walk parsing cursor with
    | .ok _ w => .ok (ofOpen cs w.held none)
    | .error (.fault fault) w => .ok (ofOpen cs w.held (some fault))
    | .error failure _ => .error failure

end Fragment

end TypeAhead
