/-
  TypeAhead.Text.Case — LETTERS WITHOUT REGARD TO CASE.

  Words of the language, names of operators and, where the preferences say so,
  member names are compared without regard to the case of the letters a–z.
  Letters beyond ASCII are compared as they are.
-/
namespace TypeAhead.Text

/-- The text with A–Z lowered. -/
def lower (s : String) : String := String.ofList (s.toList.map Char.toLower)

/-- Equality that does not tell A–Z from a–z. -/
def sameWord (a b : String) : Bool := lower a == lower b

/-- Equality of names, without regard to case if `ignoreCase` says so. -/
def sameName (ignoreCase : Bool) (a b : String) : Bool :=
  if ignoreCase then sameWord a b else a == b

/-- Whether `s` starts with `front`. -/
def startsWith (s front : String) : Bool := front.toList.isPrefixOf s.toList

end TypeAhead.Text
