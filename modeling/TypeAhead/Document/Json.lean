/-
  TypeAhead.Document.Json — DOCUMENTS IN JSON.

  Reading takes a text apart into lexemes and puts the document together with a
  stack of the lists and tables that are open, so that no nesting is too deep.
  Writing puts every item on a line of its own, indented by two blanks for each
  level, or everything on one line without blanks.

  An escape may name half of a surrogate pair alone.  Such a text stands for no
  value, but it can be skipped.
-/
import TypeAhead.Document.Basic
import TypeAhead.Literal.Quoted

namespace TypeAhead.Json

/-! ## §1. Lexemes. -/

/-- The pieces of a JSON text. -/
inductive Lexeme where
  | openList
  | closeList
  | openTable
  | closeTable
  | comma
  | colon
  /-- A value without parts. -/
  | leaf (d : Document)
  deriving Inhabited

/-- The characters between values. -/
def isBlank (c : Char) : Bool := c = ' ' || c = '\t' || c = '\n' || c = '\r'

/-- The number that exactly four hexadecimal digits write. -/
def hex4? (cs : List Char) : Option Nat :=
  let digits := cs.take 4
  if digits.length = 4 && digits.all Scan.isHexDigit then some (Literal.digitsValue 16 digits)
  else none

/-- The character of a surrogate pair. -/
def ofSurrogates (high low : Nat) : Char :=
  Char.ofNat (0x10000 + (high - 0xd800) * 0x400 + (low - 0xdc00))

/-- The second half of a surrogate pair, written as an escape. -/
def lowSurrogate? : List Char → Option Nat
  | '\\' :: 'u' :: cs => (hex4? cs).filter fun n => 0xdc00 ≤ n && n < 0xe000
  | _ => none

/-- The character of `u` and hexadecimal digits, of which the digits are given, if there is one,
and how many characters belong to the escape. -/
def unicodeEscape? (cs : List Char) : Option (Option Char × Nat) :=
  (hex4? cs).map fun n =>
    if 0xd800 ≤ n && n < 0xdc00 then
      match lowSurrogate? (cs.drop 4) with
      | some low => (some (ofSurrogates n low), 11)
      | none => (none, 5)
    else if 0xdc00 ≤ n && n < 0xe000 then (none, 5)
    else (some (Char.ofNat n), 5)

/-- The characters that stand for others after a backslash. -/
def escapes : List (Char × Char) :=
  [('"', '"'), ('\\', '\\'), ('/', '/'), ('b', '\x08'), ('f', '\x0c'), ('n', '\n'),
    ('r', '\r'), ('t', '\t')]

/-- The character of an escape, without its backslash, and how many characters belong to it. -/
def escape? : List Char → Option (Option Char × Nat)
  | 'u' :: cs => unicodeEscape? cs
  | c :: _ => (escapes.lookup c).map fun decoded => (some decoded, 1)
  | [] => none

/-- The text up to the closing quote and what follows it.  `skip` characters belong to an escape
that is read already; `read` holds the text so far, the last character first, or nothing if an
escape named no character. -/
def quoted? (read : Option (List Char)) : Nat → List Char → Option (Document × List Char)
  | _, [] => none
  | skip + 1, _ :: cs => quoted? read skip cs
  | 0, c :: cs =>
    if c = '"' then some ((read.map fun read => .text (String.ofList read.reverse)).getD .garbled, cs)
    else if c = '\\' then
      match escape? cs with
      | none => none
      | some (decoded, used) =>
        quoted? (read.bind fun read => decoded.map fun c => c :: read) used cs
    else if c.toNat < 0x20 then none
    else quoted? (read.map fun read => c :: read) 0 cs

/-- The digits before the point: no zero comes before others. -/
def whole? (cs : List Char) : Option (List Char) :=
  match cs.takeWhile Char.isDigit with
  | [] => none
  | '0' :: _ => some ['0']
  | digits => some digits

/-- A number, with its sign, and what follows it. -/
def number? (cs : List Char) : Option (Document × List Char) := do
  let sign := if cs.head? == some '-' then ['-'] else []
  let unsigned := cs.drop sign.length
  let digits ← whole? unsigned
  let rest := unsigned.drop digits.length
  let fraction := Scan.fraction rest
  if rest.head? == some '.' && fraction.isEmpty then none
  let rest := rest.drop fraction.length
  let exponent ← (Scan.exponent rest).toOption
  some (.number (String.ofList (sign ++ digits ++ fraction ++ exponent)),
    rest.drop exponent.length)

/-- The words that are values. -/
def words : List (List Char × Document) :=
  [("null".toList, .null), ("true".toList, .boolean true), ("false".toList, .boolean false)]

/-- The lexeme at the front and what follows it. -/
def lexeme? : List Char → Option (Lexeme × List Char)
  | [] => none
  | c :: cs =>
    match c with
    | '[' => some (.openList, cs)
    | ']' => some (.closeList, cs)
    | '{' => some (.openTable, cs)
    | '}' => some (.closeTable, cs)
    | ',' => some (.comma, cs)
    | ':' => some (.colon, cs)
    | '"' => (quoted? (some []) 0 cs).map fun (d, rest) => (.leaf d, rest)
    | c =>
      if c = '-' || c.isDigit then (number? (c :: cs)).map fun (d, rest) => (.leaf d, rest)
      else
        (words.find? fun (word, _) => word.isPrefixOf (c :: cs)).map fun (word, d) =>
          (.leaf d, (c :: cs).drop word.length)

/-- The lexemes of a text, after those of `read`, the last one first. -/
def lexemes? (read : List Lexeme) : Nat → List Char → Option (List Lexeme)
  | 0, _ => none
  | budget + 1, cs =>
    match cs.dropWhile isBlank with
    | [] => some read.reverse
    | cs =>
      match lexeme? cs with
      | none => none
      | some (l, rest) => lexemes? (l :: read) budget rest

/-! ## §2. Reading. -/

/-- A table whose entries are given, the last one first.  One with a key that stands for no text
can only be skipped. -/
def closeTable (entries : List (Document × Document)) : Document :=
  match entries.reverse.mapM fun (key, d) => key.text?.map fun key => (key, d) with
  | some entries => .table entries
  | none => .garbled

/-- A list or a table that is open, with what it holds so far, the last one first. -/
inductive Frame where
  | list (items : List Document)
  /-- A table in which the value of `key` is read. -/
  | table (entries : List (Document × Document)) (key : Document)

/-- What is read so far, and what may come next. -/
inductive State where
  /-- A value has to come. -/
  | value (frames : List Frame)
  /-- A list was opened. -/
  | firstItem (frames : List Frame)
  /-- A table was opened. -/
  | firstKey (frames : List Frame)
  /-- A comma came in a table. -/
  | key (entries : List (Document × Document)) (frames : List Frame)
  /-- A key came. -/
  | colon (entries : List (Document × Document)) (key : Document) (frames : List Frame)
  /-- A value was read. -/
  | done (d : Document) (frames : List Frame)

/-- Begins a value. -/
def begin? (frames : List Frame) : Lexeme → Option State
  | .leaf d => some (.done d frames)
  | .openList => some (.firstItem frames)
  | .openTable => some (.firstKey frames)
  | _ => none

/-- Begins an entry of a table. -/
def beginEntry? (entries : List (Document × Document)) (frames : List Frame) :
    Lexeme → Option State
  | .leaf (.text s) => some (.colon entries (.text s) frames)
  | .leaf .garbled => some (.colon entries .garbled frames)
  | _ => none

/-- Reads one lexeme. -/
def State.step? (s : State) (l : Lexeme) : Option State :=
  match s, l with
  | value frames, l => begin? frames l
  | firstItem frames, .closeList => some (done (.list []) frames)
  | firstItem frames, l => begin? (.list [] :: frames) l
  | firstKey frames, .closeTable => some (done (.table []) frames)
  | firstKey frames, l => beginEntry? [] frames l
  | key entries frames, l => beginEntry? entries frames l
  | colon entries k frames, .colon => some (value (.table entries k :: frames))
  | colon .., _ => none
  | done d (.list items :: frames), .comma => some (value (.list (d :: items) :: frames))
  | done d (.list items :: frames), .closeList =>
    some (done (.list (d :: items).reverse) frames)
  | done d (.table entries k :: frames), .comma => some (key ((k, d) :: entries) frames)
  | done d (.table entries k :: frames), .closeTable =>
    some (done (closeTable ((k, d) :: entries)) frames)
  | done .., _ => none

/-- The document of a text; `none` if the text is not JSON. -/
def read? (text : String) : Option Document := do
  let cs := text.toList
  let lexemes ← lexemes? [] (cs.length + 1) cs
  match ← lexemes.foldlM State.step? (.value []) with
  | .done d [] => some d
  | _ => none

/-! ## §3. Writing. -/

/-- The number in four hexadecimal digits. -/
def fourDigits (n : Nat) : String :=
  let digits := Nat.toDigits 16 n
  String.ofList (List.replicate (4 - digits.length) '0' ++ digits)

/-- One character of a text between quotes. -/
def writeChar (c : Char) : String :=
  match escapes.find? fun (_, decoded) => decoded = c && c ≠ '/' with
  | some (letter, _) => "\\" ++ letter.toString
  | none => if c.toNat < 0x20 then "\\u" ++ fourDigits c.toNat else c.toString

/-- A text between quotes. -/
def writeText (s : String) : String :=
  "\"" ++ s.toList.foldl (fun out c => out ++ writeChar c) "" ++ "\""

/-- The start of a line at a level; nothing in a document that stays on one line. -/
def newLine : Option Nat → String
  | none => ""
  | some level => "\n" ++ String.ofList (List.replicate (2 * level) ' ')

/-- The level of the items of a list or a table. -/
abbrev deeper (level : Option Nat) : Option Nat := level.map (· + 1)

/-- Brackets around items, each on a line of its own where there is a level. -/
def bracket (before after : String) (level : Option Nat) (items : List String) : String :=
  if items.isEmpty then before ++ after
  else
    before ++ String.intercalate "," (items.map fun item => newLine (deeper level) ++ item) ++
      newLine level ++ after

mutual

/-- Writes a document that starts at a level. -/
def writeAt (level : Option Nat) : Document → String
  | .null => "null"
  | .boolean b => if b then "true" else "false"
  | .number written => written
  | .text s => writeText s
  | .list items => bracket "[" "]" level (writeItems (deeper level) items)
  | .table entries => bracket "\x7b" "\x7d" level (writeEntries (deeper level) entries)
  | .moment => "null"
  | .garbled => "null"

/-- Writes the items of a list. -/
def writeItems (level : Option Nat) : List Document → List String
  | [] => []
  | d :: items => writeAt level d :: writeItems level items

/-- Writes the entries of a table. -/
def writeEntries (level : Option Nat) : List (String × Document) → List String
  | [] => []
  | (key, d) :: entries =>
    (writeText key ++ (if level.isSome then ": " else ":") ++ writeAt level d) ::
      writeEntries level entries

end

/-- The JSON text of a document. -/
def write (d : Document) : String := writeAt (some 0) d

/-- The JSON text of a document on one line. -/
def writeLine (d : Document) : String := writeAt none d

end TypeAhead.Json
