/-
  TypeAhead.Document.Toml — DOCUMENTS IN TOML.

  A TOML document is a sequence of lines that fill a tree of tables.  Keys may be
  dotted, a header names the table that the next lines fill, and a doubled header
  adds a table to a list.  No key is defined twice: a table that a header has
  defined is not defined again, and neither a dotted key nor a header reaches
  into a value.
-/
import TypeAhead.Document.Scalar

namespace TypeAhead.Toml

/-! ## §1. Blanks, comments and lines. -/

/-- Without blanks at the front. -/
def skipBlanks (cs : List Char) : List Char := cs.dropWhile fun c => c = ' ' || c = '\t'

/-- What follows the end of a line, if one is at the front. -/
def newline? : List Char → Option (List Char)
  | '\n' :: cs => some cs
  | '\r' :: '\n' :: cs => some cs
  | _ => none

/-- A character that may stand in a comment, and in a text without escapes. -/
def isPlain (c : Char) : Bool := c = '\t' || (0x20 ≤ c.toNat && c.toNat ≠ 0x7f)

/-- Without a comment at the front. -/
def skipComment : List Char → List Char
  | '#' :: cs => cs.dropWhile isPlain
  | cs => cs

/-- What follows the line; nothing but blanks and a comment may be left of it. -/
def lineEnd? (cs : List Char) : Option (List Char) :=
  match skipComment (skipBlanks cs) with
  | [] => some []
  | cs => newline? cs

/-- Without blanks, comments and ends of lines at the front.  `inside` a comment only characters
that may stand there are skipped. -/
def skipLines (inside : Bool) : List Char → List Char
  | [] => []
  | '\n' :: cs | '\r' :: '\n' :: cs => skipLines false cs
  | c :: cs =>
    if inside then if isPlain c then skipLines true cs else c :: cs
    else if c = '#' then skipLines true cs
    else if c = ' ' || c = '\t' then skipLines false cs
    else c :: cs

/-! ## §2. Texts. -/

/-- A piece of a text between quotes, with how many characters write it. -/
inductive Piece where
  /-- Characters of the text. -/
  | part (chars : List Char) (width : Nat)
  /-- The last characters of the text, and its end. -/
  | close (chars : List Char) (width : Nat)

/-- Puts the pieces of a text together, after those of `read`, the last character first.  `skip`
characters belong to a piece that is read already. -/
def pieces? (next : List Char → Option Piece) (read : List Char) :
    Nat → List Char → Option (String × List Char)
  | _, [] => none
  | skip + 1, _ :: cs => pieces? next read skip cs
  | 0, c :: cs =>
    match next (c :: cs) with
    | none => none
    | some (.part chars width) => pieces? next (chars.reverse ++ read) (width - 1) cs
    | some (.close chars width) =>
      some (String.ofList (chars.reverse ++ read).reverse, cs.drop (width - 1))

/-- The characters that stand for others after a backslash. -/
def escapes : List (Char × Char) :=
  [('b', '\x08'), ('t', '\t'), ('n', '\n'), ('f', '\x0c'), ('r', '\r'), ('"', '"'),
    ('\\', '\\')]

/-- The character of a code point that a backslash, a letter and `count` hexadecimal digits
write. -/
def codePoint? (count : Nat) (cs : List Char) : Option Piece :=
  let digits := cs.take count
  let n := Literal.digitsValue 16 digits
  if digits.length = count && digits.all Scan.isHexDigit && Literal.isCodePoint n then
    some (.part [Char.ofNat n] (count + 2))
  else none

/-- An escape; its backslash is not among the characters. -/
def escape? : List Char → Option Piece
  | 'u' :: cs => codePoint? 4 cs
  | 'U' :: cs => codePoint? 8 cs
  | c :: _ => (escapes.lookup c).map fun decoded => .part [decoded] 2
  | [] => none

/-- A plain character. -/
def plain? : List Char → Option Piece
  | c :: _ => if isPlain c then some (.part [c] 1) else none
  | [] => none

/-- A text on one line in double quotes. -/
def basic? : List Char → Option Piece
  | '"' :: _ => some (.close [] 1)
  | '\\' :: cs => escape? cs
  | cs => plain? cs

/-- A text on one line in single quotes. -/
def literal? : List Char → Option Piece
  | '\'' :: _ => some (.close [] 1)
  | cs => plain? cs

/-- Quotes in a text between three of them: fewer than three belong to the text, and so do up
to two before the last three. -/
def quotes (quote : Char) (cs : List Char) : Piece :=
  let run := (cs.take 5).takeWhile (· = quote)
  if run.length < 3 then .part run run.length else .close (run.drop 3) run.length

/-- How many characters at the front are blanks and ends of lines, after `width` others. -/
def foldWidth (width : Nat) : List Char → Nat
  | ' ' :: cs | '\t' :: cs | '\n' :: cs => foldWidth (width + 1) cs
  | '\r' :: '\n' :: cs => foldWidth (width + 2) cs
  | _ => width

/-- The blanks and ends of lines after a backslash at the end of a line; the backslash is not
among the characters. -/
def foldedLine? (cs : List Char) : Option Piece :=
  (newline? (skipBlanks cs)).map fun _ => .part [] (foldWidth 1 cs)

/-- A plain character or the end of a line. -/
def plainOrNewline? : List Char → Option Piece
  | '\n' :: _ => some (.part ['\n'] 1)
  | '\r' :: '\n' :: _ => some (.part ['\n'] 2)
  | cs => plain? cs

/-- A text on several lines in double quotes. -/
def basicLines? : List Char → Option Piece
  | '"' :: cs => some (quotes '"' ('"' :: cs))
  | '\\' :: cs =>
    match escape? cs with
    | some piece => some piece
    | none => foldedLine? cs
  | cs => plainOrNewline? cs

/-- A text on several lines in single quotes. -/
def literalLines? : List Char → Option Piece
  | '\'' :: cs => some (quotes '\'' ('\'' :: cs))
  | cs => plainOrNewline? cs

/-- Without the end of a line at the front. -/
def skipNewline (cs : List Char) : List Char := (newline? cs).getD cs

/-- A text on one line. -/
def line? (cs : List Char) : Option (String × List Char) :=
  match cs with
  | '"' :: cs => pieces? basic? [] 0 cs
  | '\'' :: cs => pieces? literal? [] 0 cs
  | _ => none

/-- A text. -/
def text? (cs : List Char) : Option (String × List Char) :=
  match cs with
  | '"' :: '"' :: '"' :: cs => pieces? basicLines? [] 0 (skipNewline cs)
  | '\'' :: '\'' :: '\'' :: cs => pieces? literalLines? [] 0 (skipNewline cs)
  | cs => line? cs

/-! ## §3. Keys. -/

/-- What a key without quotes is made of. -/
def isKeyChar (c : Char) : Bool := c.isAlphanum || c = '-' || c = '_'

/-- How many keys a dotted key may have, and how deep values may nest. -/
def depthLimit : Nat := 80

/-- A key without dots. -/
def simpleKey? (cs : List Char) : Option (String × List Char) :=
  match cs with
  | '"' :: _ | '\'' :: _ => line? cs
  | cs =>
    let key := cs.takeWhile isKeyChar
    if key.isEmpty then none else some (String.ofList key, cs.drop key.length)

/-- The keys of a dotted key, after those of `read`, the last one first, with the blanks around
them. -/
def dottedKey? (read : List String) : Nat → List Char → Option (List String × List Char)
  | 0, _ => none
  | budget + 1, cs =>
    match simpleKey? (skipBlanks cs) with
    | none => none
    | some (key, rest) =>
      match skipBlanks rest with
      | '.' :: rest => dottedKey? (key :: read) budget rest
      | rest => some ((key :: read).reverse, rest)

/-- A dotted key. -/
def key? (cs : List Char) : Option (List String × List Char) :=
  dottedKey? [] (depthLimit - 1) cs

/-! ## §4. Tables. -/

/-- What a key of a table stands for. -/
inductive Node where
  | value (d : Document)
  /-- A table.  It is implicit as long as only keys below it are defined, and dotted if a dotted
  key made it. -/
  | table (implicit dotted : Bool) (entries : List (String × Node))
  /-- The tables of doubled headers, the last one first. -/
  | tables (elements : List Node)
  deriving Inhabited

/-- The entries of a table. -/
abbrev Entries := List (String × Node)

/-- Puts a node under a key, in the place of the one that is there. -/
def put (key : String) (node : Node) : Entries → Entries
  | [] => [(key, node)]
  | (k, n) :: entries =>
    if k == key then (key, node) :: entries else (k, n) :: put key node entries

/-- Changes the table below some keys, and makes those that are missing.  With `dotted` keys, no
table that is defined already is changed. -/
def descend (dotted : Bool) (change : Node → Option Node) : List String → Node → Option Node
  | [], node => change node
  | key :: keys, .table implicit isDotted entries => do
    let child ← match entries.lookup key with
      | none => descend dotted change keys (.table true dotted [])
      | some (.table i d below) =>
        if dotted && !i then none else descend dotted change keys (.table i d below)
      | some (.tables (last :: before)) =>
        (descend dotted change keys last).map fun last => .tables (last :: before)
      | some _ => none
    some (.table implicit isDotted (put key child entries))
  | _ :: _, _ => none

/-- Changes what a header leads to: the table itself, or the last one of a list. -/
def withLast (change : Node → Option Node) : Node → Option Node
  | .tables (last :: before) => (change last).map fun last => .tables (last :: before)
  | node => change node

/-- Defines a key of a table.  A dotted key only adds to tables that dotted keys made. -/
def define (isDotted : Bool) (key : String) (d : Document) : Node → Option Node
  | .table implicit dotted entries =>
    if dotted != isDotted || (entries.lookup key).isSome then none
    else some (.table implicit dotted (entries ++ [(key, .value d)]))
  | _ => none

/-- Defines a dotted key below a table. -/
def assign (keys : List String) (d : Document) (node : Node) : Option Node :=
  match keys.getLast? with
  | none => none
  | some key => descend true (define (keys.length > 1) key d) keys.dropLast node

/-- Defines a table by a header. -/
def openTable (key : String) : Node → Option Node
  | .table implicit dotted entries =>
    match entries.lookup key with
    | none => some (.table implicit dotted (entries ++ [(key, .table false false [])]))
    | some (.table true false below) =>
      some (.table implicit dotted (put key (.table false false below) entries))
    | some _ => none
  | _ => none

/-- Adds a table to a list by a doubled header. -/
def addTable (key : String) : Node → Option Node
  | .table implicit dotted entries =>
    let first : Node := .table false false []
    match entries.lookup key with
    | none => some (.table implicit dotted (entries ++ [(key, .tables [first])]))
    | some (.tables elements) =>
      some (.table implicit dotted (put key (.tables (first :: elements)) entries))
    | some _ => none
  | _ => none

/-- A table that is empty. -/
def emptyTable : Node := .table false false []

mutual

/-- The document of a node. -/
def Node.document : Node → Document
  | .value d => d
  | .table _ _ entries => .table (documentEntries [] entries)
  | .tables elements => .list (documentElements [] elements)

/-- The documents of entries, after those of `written`, the last one first. -/
def documentEntries (written : List (String × Document)) :
    List (String × Node) → List (String × Document)
  | [] => written.reverse
  | (key, node) :: entries => documentEntries ((key, node.document) :: written) entries

/-- The documents of the tables of a list, the last one first, before `written`. -/
def documentElements (written : List Document) : List Node → List Document
  | [] => written
  | node :: nodes => documentElements (node.document :: written) nodes

end

/-! ## §5. Values. -/

section

/-! A budget is larger than the number of characters that are left, so that it never runs out
before them. -/

variable (value? : Nat → List Char → Option (Document × List Char))

/-- A key with its value: the keys, the value and what follows it. -/
def pair? (budget : Nat) (cs : List Char) : Option (List String × Document × List Char) := do
  let (keys, rest) ← key? cs
  let rest ← past? '=' rest
  let (d, rest) ← value? budget (skipBlanks rest)
  some (keys, d, rest)

/-- The items of a list up to its end, after those of `read`, the last one first.  A comma may
stand before the end. -/
def items? (read : List Document) : Nat → List Char → Option (List Document × List Char)
  | 0, _ => none
  | budget + 1, cs =>
    match skipLines false cs with
    | ']' :: rest => some (read.reverse, rest)
    | cs =>
      match value? budget cs with
      | none => none
      | some (d, rest) =>
        match skipLines false rest with
        | ',' :: rest => items? (d :: read) budget rest
        | ']' :: rest => some ((d :: read).reverse, rest)
        | _ => none

/-- The entries of a table on one line up to its end, with at least one of them. -/
def entries? (table : Node) : Nat → List Char → Option (Node × List Char)
  | 0, _ => none
  | budget + 1, cs =>
    match pair? value? budget cs with
    | none => none
    | some (keys, d, rest) =>
      match assign keys d table with
      | none => none
      | some table =>
        match skipBlanks rest with
        | ',' :: rest => entries? table budget rest
        | '}' :: rest => some (table, rest)
        | _ => none

/-- A list or a table on one line. -/
def composite? (budget : Nat) (cs : List Char) : Option (Document × List Char) :=
  match cs with
  | '[' :: cs => (items? value? [] budget cs).map fun (items, rest) => (.list items, rest)
  | '{' :: cs =>
    match skipBlanks cs with
    | '}' :: rest => some (.table [], rest)
    | cs => (entries? value? emptyTable budget cs).map
        fun (table, rest) => (table.document, rest)
  | _ => none

end

/-- The value at the front and what follows it, with lists and tables nested at most `depth`
deep. -/
def value? : Nat → Nat → List Char → Option (Document × List Char)
  | depth, budget, cs =>
    match cs with
    | '"' :: _ | '\'' :: _ => (text? cs).map fun (s, rest) => (.text s, rest)
    | '[' :: _ | '{' :: _ =>
      match depth with
      | 0 => none
      | depth + 1 => composite? (value? depth) budget cs
    | _ => scalar? cs

/-! ## §6. Documents. -/

/-- What is read of a document so far. -/
structure Draft where
  root : Node := emptyTable
  /-- The keys of the last header. -/
  keys : List String := []

/-- Reads a header from its first bracket on. -/
def Draft.header? (d : Draft) (cs : List Char) : Option (Draft × List Char) := do
  let isList := cs.head? == some '['
  let (keys, rest) ← key? (if isList then cs.drop 1 else cs)
  let rest ← past? ']' rest
  let rest ← if isList then past? ']' rest else some rest
  let rest ← lineEnd? rest
  let key ← keys.getLast?
  let root ← descend false (if isList then addTable key else openTable key) keys.dropLast d.root
  some ({ root, keys }, rest)

/-- Reads a key with its value. -/
def Draft.pair? (d : Draft) (budget : Nat) (cs : List Char) : Option (Draft × List Char) := do
  let (keys, v, rest) ← Toml.pair? (value? (depthLimit - 1)) budget cs
  let rest ← lineEnd? rest
  let root ← descend false (withLast (assign keys v)) d.keys d.root
  some ({ d with root }, rest)

/-- Reads a line. -/
def Draft.line? (d : Draft) (budget : Nat) (cs : List Char) : Option (Draft × List Char) :=
  match skipBlanks cs with
  | '[' :: rest => d.header? rest
  | '#' :: rest => (lineEnd? ('#' :: rest)).map (d, ·)
  | '\n' :: rest | '\r' :: '\n' :: rest => some (d, rest)
  | [] => some (d, [])
  | rest => d.pair? budget rest

/-- Reads the lines of a document. -/
def Draft.lines? (d : Draft) : Nat → List Char → Option Draft
  | _, [] => some d
  | 0, _ => none
  | budget + 1, cs =>
    match d.line? budget cs with
    | none => none
    | some (d, rest) => d.lines? budget rest

/-- The document of a text, which may start with a byte order mark; `none` if the text is not
TOML. -/
def read? (text : String) : Option Document :=
  let cs := text.toList
  let cs := if cs.head? == some (Char.ofNat 0xfeff) then cs.drop 1 else cs
  ((({} : Draft).lines? (cs.length + 1) cs).map fun d => d.root.document)

end TypeAhead.Toml
