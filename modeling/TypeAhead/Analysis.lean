/-
  TypeAhead.Analysis — WHAT THE CARET POINTS AT.

  The text before the caret, without a dot directly before it, ends in a
  fragment; the analysis says what that fragment stands for.
-/
import TypeAhead.Fragment.Locate
import TypeAhead.Resolution

namespace TypeAhead

/-- What the caret points at. -/
structure Analysis where
  resolution : Resolution
  fragment : Fragment
  deriving Repr, Inhabited

namespace Analysis

/-- Without a dot at the end. -/
def withoutDot (cs : List Char) : List Char :=
  if cs.getLast? = some '.' then cs.dropLast else cs

/-- The text before the caret, minus a dot directly before it. -/
def truncate (text : String) (caret : Nat) : Except Failure String :=
  let size := text.utf8ByteSize
  if size > Limits.sourceBytes then .error (.sourceTooLarge size)
  else
    match Text.takeBytes? caret text.toList with
    | none => .error (.invalidCaret caret size)
    | some before => .ok (String.ofList (withoutDot before))

end Analysis

/-- What the fragment before the caret stands for. -/
def Typing.Setting.analyze (s : Typing.Setting) (text : String) (caret : Nat) : Except Failure Analysis := do
  let before ← Analysis.truncate text caret
  let fragment ← Fragment.locate s.parsing before
  let resolution ← s.resolve fragment.text
  pure { resolution, fragment }

end TypeAhead
