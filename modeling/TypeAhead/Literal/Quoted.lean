/-
  TypeAhead.Literal.Quoted — WHAT A STRING LITERAL MEANS.

  The body of a literal is decoded escape by escape: letters for control
  characters, one to three octal digits, two or four hexadecimal digits, a
  control letter, and any other character that is neither a letter nor a digit
  for itself.  In the dialect of doubled quotes, two double quotes in the
  decoded body stand for one.
-/
import TypeAhead.Fault
import TypeAhead.Token.Scan

namespace TypeAhead

/-- How a double quote is written inside a literal. -/
inductive Dialect where
  /-- Only with a backslash before it. -/
  | backslash
  /-- Also doubled. -/
  | doubled
  deriving Repr, DecidableEq, Inhabited

namespace Literal

open Text

/-! ## §1. Escapes. -/

/-- The character of an escape that is one letter. -/
def controlLetter? : Char → Option Char
  | 'a' => some '\x07'
  | 'b' => some '\x08'
  | 't' => some '\t'
  | 'r' => some '\r'
  | 'v' => some '\x0b'
  | 'f' => some '\x0c'
  | 'n' => some '\n'
  | 'e' => some '\x1b'
  | _ => none

/-- A digit from 0 to 7. -/
def isOctalDigit (c : Char) : Bool := '0' ≤ c && c ≤ '7'

/-- The value of a digit in a base up to 16. -/
def digitValue (c : Char) : Nat :=
  if c.isDigit then c.toNat - '0'.toNat else c.toLower.toNat - 'a'.toNat + 10

/-- The number that digits write in a base. -/
def digitsValue (base : Nat) (cs : List Char) : Nat :=
  cs.foldl (fun n c => n * base + digitValue c) 0

/-- The character of an octal escape; only the low byte of the number counts. -/
def octalChar (digits : List Char) : Char := Char.ofNat (digitsValue 8 digits % 256)

/-- Whether a number is the code point of a character. -/
def isCodePoint (n : Nat) : Bool := n < 0xd800 || (0xdfff < n && n < 0x110000)

/-- The hexadecimal number in upper case. -/
def upperHex (n : Nat) : String := String.ofList ((Nat.toDigits 16 n).map Char.toUpper)

/-- The character of an escape with exactly `count` hexadecimal digits. -/
def hexChar (escape : Char) (count : Nat) (cs : List Char) : Except String Char :=
  let digits := cs.take count
  if digits.length = count && digits.all Scan.isHexDigit then
    let value := digitsValue 16 digits
    if isCodePoint value then .ok (Char.ofNat value)
    else .error s!"\\{escape}{upperHex value} is not a valid character"
  else .error s!"insufficient hex digits after \\{escape}"

/-- The control character that a letter, or one of `@[\]^_`, names. -/
def controlChar (c : Char) : Except String Char :=
  let code := c.toUpper.toNat
  if '@'.toNat ≤ code && code < '@'.toNat + 0x20 then .ok (Char.ofNat (code - '@'.toNat))
  else .error s!"unrecognized control character \\c{c}"

/-- The character of the escape that `c` starts after its backslash, given what follows `c`,
and how many of the following characters belong to it. -/
def escape (c : Char) (cs : List Char) : Except String (Char × Nat) :=
  match controlLetter? c with
  | some decoded => .ok (decoded, 0)
  | none =>
    if isOctalDigit c then
      let more := (cs.take 2).takeWhile isOctalDigit
      .ok (octalChar (c :: more), more.length)
    else if c = 'x' then (hexChar c 2 cs).map (·, 2)
    else if c = 'u' then (hexChar c 4 cs).map (·, 4)
    else if c = 'c' then
      match cs with
      | [] => .error "missing control character after \\c"
      | d :: _ => (controlChar d).map (·, 1)
    else if isWordChar c then .error s!"unrecognized escape sequence \\{c}"
    else .ok (c, 0)

/-- Decodes a body from the front; `skip` characters belong to an escape that is decoded
already, and `decoded` holds the result so far, the last character first. -/
def decode (decoded : List Char) : Nat → List Char → Except String (List Char)
  | _, [] => .ok decoded.reverse
  | skip + 1, _ :: cs => decode decoded skip cs
  | 0, '\\' :: cs =>
    match cs with
    | [] => .error "illegal \\ at end of literal"
    | c :: rest =>
      match escape c rest with
      | .error reason => .error reason
      | .ok (value, used) => decode (value :: decoded) (used + 1) (c :: rest)
  | 0, c :: cs => decode (c :: decoded) 0 cs

/-- The characters that a body stands for. -/
def unescape (body : List Char) : Except String (List Char) := decode [] 0 body

/-! ## §2. Literals. -/

/-- Two double quotes in a row become one. -/
def mergeQuotes (merged : List Char) : List Char → List Char
  | '"' :: '"' :: cs => mergeQuotes ('"' :: merged) cs
  | c :: cs => mergeQuotes (c :: merged) cs
  | [] => merged.reverse

/-- What a dialect makes of a decoded body. -/
def collapse : Dialect → List Char → List Char
  | .backslash, cs => cs
  | .doubled, cs => mergeQuotes [] cs

/-- The text that a literal with its quotes stands for; faults are reported at `position`. -/
def value (dialect : Dialect) (position : Nat) (literal : String) : Except Fault String :=
  match literal.toList with
  | quote :: d :: cs =>
    if quote ≠ '"' && quote ≠ '\'' then .error ⟨.literalWithoutQuote, position⟩
    else if (d :: cs).getLast? ≠ some quote then .error ⟨.literalNotClosed, position⟩
    else
      match unescape (d :: cs).dropLast with
      | .error reason => .error ⟨.invalidEscape reason, position⟩
      | .ok decoded => .ok (String.ofList (collapse dialect decoded))
  | _ => .error ⟨.literalTooShort, position⟩

end Literal

end TypeAhead
