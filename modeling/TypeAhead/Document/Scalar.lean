/-
  TypeAhead.Document.Scalar — NUMBERS, DATES AND TIMES IN TOML.

  A word of a TOML document that is no text is one of `true` and `false`, an
  integer in one of four bases, a real number, or a date, a time or both.
  Integers fit into 64 bits, real numbers are finite unless they are written
  `inf` or `nan`, and dates are of the calendar.  Of an exponent at most six
  digits count, zeros in front apart.
-/
import TypeAhead.Document.Basic
import TypeAhead.Literal.Number

namespace TypeAhead.Toml

/-! ## §1. Digits. -/

/-- Whether the characters are digits with single underscores between them; `after` tells whether
a digit comes before. -/
def isGrouped (isDigit : Char → Bool) (after : Bool) : List Char → Bool
  | [] => after
  | c :: cs =>
    if isDigit c then isGrouped isDigit true cs
    else c = '_' && after && isGrouped isDigit false cs

/-- Digits with single underscores between them, without the underscores. -/
def ungroup? (isDigit : Char → Bool) (cs : List Char) : Option (List Char) :=
  if isGrouped isDigit false cs then some (cs.filter (· ≠ '_')) else none

/-- Grouped decimal digits that do not start with a needless zero. -/
def decimal? (cs : List Char) : Option (List Char) :=
  (ungroup? Char.isDigit cs).filter fun digits => digits.length = 1 || digits.head? ≠ some '0'

/-- A sign at the front, and the rest. -/
def unsigned (cs : List Char) : Bool × List Char :=
  match cs with
  | '-' :: cs => (true, cs)
  | '+' :: cs => (false, cs)
  | cs => (false, cs)

/-! ## §2. Numbers. -/

/-- How many numbers of 64 bits are not negative. -/
def positives : Nat := 9223372036854775808

/-- Whether grouped digits of a base write an integer below `bound`. -/
def isBelow (bound base : Nat) (isDigit : Char → Bool) (cs : List Char) : Bool :=
  (ungroup? isDigit cs).any fun digits => Literal.valueWithin bound base digits < bound

/-- Whether the word is an integer that fits into 64 bits. -/
def isInteger (cs : List Char) : Bool :=
  match cs with
  | '0' :: 'x' :: cs => isBelow positives 16 Scan.isHexDigit cs
  | '0' :: 'o' :: cs => isBelow positives 8 Literal.isOctalDigit cs
  | '0' :: 'b' :: cs => isBelow positives 2 (fun c => c = '0' || c = '1') cs
  | cs =>
    let (negative, digits) := unsigned cs
    let bound := if negative then positives + 1 else positives
    (decimal? digits).any fun digits => Literal.valueWithin bound 10 digits < bound

/-- The least number that is too large for a binary number of double precision. -/
def overflow : Nat := Nat.pow 2 1024 - Nat.pow 2 970

/-- Whether `digits` before the power of ten `exponent` are too large for a binary number of
double precision.  The number has that many digits before its point as `places` tells; those
behind the point do not count, as the bound is whole. -/
def overflows (digits : List Char) (exponent : Int) : Bool :=
  let digits := digits.dropWhile (· = '0')
  let places := digits.length + exponent
  if digits.isEmpty || places < 300 then false
  else if places > 320 then true
  else
    let whole := digits.take places.toNat
    overflow ≤ Literal.digitsValue 10 whole * Nat.pow 10 (places.toNat - whole.length)

/-- A point with grouped digits after it: the digits, and the rest. -/
def fraction? : List Char → Option (List Char × List Char)
  | '.' :: cs =>
    let digits := cs.takeWhile fun c => c.isDigit || c = '_'
    (ungroup? Char.isDigit digits).map (·, cs.drop digits.length)
  | cs => some ([], cs)

/-- The digits of an exponent are read until the number has reached this bound. -/
def exponentBound : Nat := 65536

/-- The size of an exponent: the number that its digits write, without those that follow once it
has reached the bound. -/
def exponentSize (digits : List Char) : Nat :=
  digits.foldl (fun n c => if n < exponentBound then n * 10 + Literal.digitValue c else n) 0

/-- The exponent that is all of the characters; zero without any. -/
def exponent? : List Char → Option Int
  | [] => some 0
  | c :: cs =>
    if c.toLower = 'e' then
      let (negative, digits) := unsigned cs
      (ungroup? Char.isDigit digits).map fun digits =>
        let size := exponentSize digits
        if negative then -(size : Int) else size
    else none

/-- Whether the word is a real number with a fraction or an exponent, and finite. -/
def isReal (cs : List Char) : Bool :=
  let (negative, body) := unsigned cs
  let whole := body.takeWhile fun c => c.isDigit || c = '_'
  let rest := body.drop whole.length
  match decimal? whole, fraction? rest with
  | some digits, some (fraction, rest) =>
    match exponent? rest with
    | some exponent =>
      !(fraction.isEmpty && rest.isEmpty) &&
        (negative || !overflows (digits ++ fraction) (exponent - fraction.length))
    | none => false
  | _, _ => false

/-- Whether the word is a number that is written as a word. -/
def isSpecial (cs : List Char) : Bool :=
  let (_, body) := unsigned cs
  body = "inf".toList || body = "nan".toList

/-! ## §3. Dates and times. -/

/-- The number of exactly `count` digits at the front, and the rest. -/
def fixed? (count : Nat) (cs : List Char) : Option (Nat × List Char) :=
  let digits := cs.take count
  if digits.length = count && digits.all Char.isDigit then
    some (Literal.digitsValue 10 digits, cs.drop count)
  else none

/-- The days of a month. -/
def daysIn (year month : Nat) : Nat :=
  if month = 2 then
    if year % 4 = 0 && (year % 100 ≠ 0 || year % 400 = 0) then 29 else 28
  else if [4, 6, 9, 11].contains month then 30
  else 31

/-- Goes past a character. -/
def past? (c : Char) : List Char → Option (List Char)
  | d :: cs => if c = d then some cs else none
  | [] => none

/-- Goes past a date. -/
def date? (cs : List Char) : Option (List Char) := do
  let (year, cs) ← fixed? 4 cs
  let (month, cs) ← fixed? 2 (← past? '-' cs)
  let (day, cs) ← fixed? 2 (← past? '-' cs)
  if 1 ≤ month && month ≤ 12 && 1 ≤ day && day ≤ daysIn year month then some cs else none

/-- Goes past the digits after a point, if there is one. -/
def secondsFraction? : List Char → Option (List Char)
  | '.' :: cs =>
    let digits := cs.takeWhile Char.isDigit
    if digits.isEmpty then none else some (cs.drop digits.length)
  | cs => some cs

/-- Goes past a time of day. -/
def time? (cs : List Char) : Option (List Char) := do
  let (hour, cs) ← fixed? 2 cs
  let (minute, cs) ← fixed? 2 (← past? ':' cs)
  let (second, cs) ← fixed? 2 (← past? ':' cs)
  if hour ≤ 23 && minute ≤ 59 && second ≤ 60 then secondsFraction? cs else none

/-- Whether the characters are the offset of a time, or nothing. -/
def isOffset (cs : List Char) : Bool :=
  match cs with
  | [] | ['Z'] | ['z'] => true
  | c :: cs =>
    (c = '+' || c = '-') &&
      ((do
        let (hour, cs) ← fixed? 2 cs
        let (minute, cs) ← fixed? 2 (← past? ':' cs)
        some (hour ≤ 23 && minute ≤ 59 && cs.isEmpty)) : Option Bool) == some true

/-- Whether the characters are a time of day with an optional offset. -/
def isOffsetTime (cs : List Char) : Bool := (time? cs).any isOffset

/-- Whether the word is a date, a time, or both. -/
def isMoment (cs : List Char) : Bool :=
  match date? cs with
  | some [] => true
  | some (c :: rest) => c.toLower = 't' && isOffsetTime rest
  | none => (time? cs).any List.isEmpty

/-! ## §4. Words. -/

/-- What may stand in a word that is no text. -/
def isWordChar (c : Char) : Bool :=
  c.isAlphanum || c = '+' || c = '-' || c = '_' || c = '.' || c = ':'

/-- The document of a word. -/
def ofWord? (cs : List Char) : Option Document :=
  if cs = "true".toList then some (.boolean true)
  else if cs = "false".toList then some (.boolean false)
  else if isInteger cs || isReal cs || isSpecial cs then some (.number (String.ofList cs))
  else if isMoment cs then some .moment
  else none

/-- The time that follows a date after a blank, if one does. -/
def spacedTime (word : List Char) : List Char → Option (List Char × List Char)
  | ' ' :: c :: cs =>
    if c.isDigit && date? word == some [] then
      let time := (c :: cs).takeWhile isWordChar
      some (time, (c :: cs).drop time.length)
    else none
  | _ => none

/-- The scalar at the front, and what follows it. -/
def scalar? (cs : List Char) : Option (Document × List Char) :=
  let word := cs.takeWhile isWordChar
  let rest := cs.drop word.length
  match spacedTime word rest with
  | some (time, rest) => if isOffsetTime time then some (.moment, rest) else none
  | none => (ofWord? word).map (·, rest)

end TypeAhead.Toml
