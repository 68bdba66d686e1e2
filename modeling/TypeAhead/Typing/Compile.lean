/-
  TypeAhead.Typing.Compile — THE TYPE OF AN EXPRESSION.

  A text is an expression of a type if the walk of the grammar reads all of it.
-/
import TypeAhead.Typing.Grammar

namespace TypeAhead.Typing

/-- The type of the expression from the first token on. -/
def Setting.typeOf (s : Setting) (cursor : Cursor) : Except Failure TypeDef :=
  match (Rule.run s Rule.budget .conditional).run ⟨cursor, 0, []⟩ with
  | .error failure _ => .error failure
  | .ok a w =>
    if w.cursor.current.isFinish then .ok a.type
    else .error (.fault (w.cursor.fault .leftover))

/-- The type of a text as an expression. -/
def Setting.compile (s : Setting) (text : String) : Except Failure TypeDef :=
  match Cursor.open? text.toList with
  | .error fault => .error (.fault fault)
  | .ok cursor => s.typeOf cursor

end TypeAhead.Typing
