/-
  TypeAhead.Document.Basic — DOCUMENTS OF ANY FORMAT.

  A document is a value of the kind that JSON and TOML write: texts, truth
  values, numbers, lists and tables.  Models and settings are read from
  documents, and reports are written as documents, whatever the format.

  A record may be written as a table of its fields, or as a list of them in
  order.  Fields that a record does not know are skipped.
-/
namespace TypeAhead

/-! ## §1. Documents. -/

/-- A document. -/
inductive Document where
  | null
  | boolean (value : Bool)
  /-- A number, by the text that writes it. -/
  | number (written : String)
  | text (value : String)
  | list (items : List Document)
  /-- Keys with their documents, in order; a key may be repeated. -/
  | table (entries : List (String × Document))
  /-- A date or a time.  A record finds none of its fields there. -/
  | moment
  /-- Something that can be skipped, but stands for no value. -/
  | garbled
  deriving Inhabited

/-- The formats of documents, where it matters which one is read. -/
inductive Document.Format where
  | json
  | toml
  deriving Repr, DecidableEq, Inhabited

namespace Document

/-- A natural number. -/
def nat (n : Nat) : Document := .number (toString n)

/-- A text, or null. -/
def optionalText : Option String → Document
  | none => .null
  | some s => .text s

/-- A list of texts. -/
def texts (values : List String) : Document := .list (values.map .text)

/-! ## §2. Reading values. -/

/-- The text of a document. -/
def text? : Document → Option String
  | .text s => some s
  | _ => none

/-- The truth value of a document. -/
def boolean? : Document → Option Bool
  | .boolean b => some b
  | _ => none

/-- The only character of a document. -/
def char? (d : Document) : Option Char :=
  match d.text?.map String.toList with
  | some [c] => some c
  | _ => none

/-- The values of a list, if each of them can be read. -/
def list? {α : Type} (read : Document → Option α) : Document → Option (List α)
  | .list items => items.mapM read
  | _ => none

/-- A value that may be null. -/
def option? {α : Type} (read : Document → Option α) : Document → Option (Option α)
  | .null => some none
  | d => (read d).map some

/-- Whether a document can stand beside the name of a choice that has no parts. -/
def isUnit (format : Format) : Document → Bool
  | .null => format == .json
  | .list [] | .table [] => format == .toml
  | _ => false

/-- A choice by its name, which may also be the only key of a table. -/
def choice? {α : Type} (format : Format) (ofName? : String → Option α) :
    Document → Option α
  | .text s => ofName? s
  | .table [(s, d)] => if d.isUnit format then ofName? s else none
  | _ => none

/-! ## §3. Reading records. -/

/-- The documents of the fields of a record, in the order of `keys`.  In a table no known field
may be repeated; in a list the fields come in order, and JSON allows no more of them. -/
def fields? (format : Format) (keys : List String) : Document → Option (List (Option Document))
  | .table entries =>
    let known := (entries.map Prod.fst).filter keys.contains
    if known.all fun key => known.count key == 1 then
      some (keys.map fun key => entries.lookup key)
    else none
  | .list items =>
    if format = .json && items.length > keys.length then none
    else some (keys.zipIdx.map fun (_, i) => items[i]?)
  | .moment => some (keys.map fun _ => none)
  | _ => none

/-- The field of a record at a place. -/
def field (fields : List (Option Document)) (place : Nat) : Option Document :=
  (fields[place]?).join

/-- A field that has to be there. -/
def required? {α : Type} (read : Document → Option α) (fields : List (Option Document))
    (place : Nat) : Option α :=
  (field fields place).bind read

/-- A field with a value for where it is missing. -/
def withDefault? {α : Type} (default : α) (read : Document → Option α)
    (fields : List (Option Document)) (place : Nat) : Option α :=
  match field fields place with
  | none => some default
  | some d => read d

end Document

end TypeAhead
