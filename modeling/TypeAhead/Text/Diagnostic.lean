/-
  TypeAhead.Text.Diagnostic — A MESSAGE WITH THE LINE IT IS ABOUT.

  A diagnostic quotes the line of an offset behind a gutter that holds the line
  number, and puts a marker under the column.
-/
import TypeAhead.Text.Position

namespace TypeAhead.Text

/-- What follows the first `n` line ends. -/
def dropLines : Nat → List Char → List Char
  | 0, cs => cs
  | _ + 1, [] => []
  | n + 1, c :: cs => if c = '\n' then dropLines n cs else dropLines (n + 1) cs

/-- Line `n`, counted from one, without its end, which is a line feed or a carriage
return and a line feed; after the last end there is no further line. -/
def line? (text : List Char) : Nat → Option (List Char)
  | 0 => none
  | n + 1 =>
    let rest := dropLines n text
    let line := rest.takeWhile (· ≠ '\n')
    if rest.isEmpty then none
    else if line.length < rest.length && line.getLast? == some '\r' then some line.dropLast
    else some line

/-- `n` blanks. -/
def blanks (n : Nat) : String := String.ofList (List.replicate n ' ')

/-- The message, the place, the line of the place and a marker under its column. -/
def diagnose (text : List Char) (offset : Nat) (message : String) : String :=
  let place := Position.locate text offset
  let line := String.ofList ((line? text place.line).getD [])
  let number := toString place.line
  let gutter := blanks number.length
  s!"Error: {message}\n  --> {place.render}\n   {gutter} |\n{number} | {line}\n" ++
    s!"   {gutter} | {blanks (place.column - 1)}^\n"

end TypeAhead.Text
