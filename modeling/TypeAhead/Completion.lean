/-
  TypeAhead.Completion — WHAT MAY BE TYPED NEXT.

  The caret goes back to the start of the word that is being typed.  What stands
  before that word is analysed, and the members of its type are offered: static
  members after the name of a type, those of an instance otherwise.
-/
import TypeAhead.Analysis

namespace TypeAhead

/-! ## §1. Lists. -/

/-- The kinds of items. -/
inductive ItemKind where
  /-- The word `it`. -/
  | variable
  | field
  | property
  | method
  deriving Repr, DecidableEq, Inhabited

namespace ItemKind

/-- The name of a kind. -/
def name : ItemKind → String
  | .variable => "variable"
  | .field => "field"
  | .property => "property"
  | .method => "method"

/-- The number of the image that is shown for a kind. -/
def icon : ItemKind → String
  | .variable => "-1"
  | .field => "0"
  | .property => "1"
  | .method => "2"

end ItemKind

/-- Something that may be typed. -/
structure Item where
  name : String
  kind : ItemKind
  deriving Repr, DecidableEq, Inhabited

/-- What may be typed at a caret. -/
structure Completion where
  /-- The type whose members are listed. -/
  type : TypeDef
  /-- Whether the members are static. -/
  isStatic : Bool
  /-- The offset where the word starts. -/
  wordStart : Nat
  /-- The bytes of the word before the caret. -/
  entered : Nat
  items : List Item
  deriving Repr, Inhabited

namespace Completion

/-- The items with their images, in one text. -/
def render (c : Completion) (listing : Listing) : String :=
  String.intercalate listing.separator.toString
    (c.items.map fun item => item.name ++ listing.kindSeparator.toString ++ item.kind.icon)

/-! ## §2. The word before the caret. -/

/-- The bytes of the word that ends a text, which is given backwards. -/
def wordSize (backwards : List Char) : Nat := Text.byteSize (backwards.takeWhile Text.isWordChar)

/-- The start of the word that ends at the caret. -/
def wordStart? (text : String) (caret : Nat) : Option Nat :=
  (Text.takeBytes? caret text.toList).map fun before => caret - wordSize before.reverse

/-- The offset of the character before the word that starts at an offset. -/
def beforeWord (text : String) (start : Nat) : Nat :=
  match Text.takeBytes? start text.toList with
  | none => 0
  | some before => start - (before.getLast?.map Char.utf8Size).getD 0

/-! ## §3. Items. -/

/-- Names in order, as items of a kind. -/
def sorted (kind : ItemKind) (names : List String) : List Item :=
  (names.mergeSort fun a b => decide (a ≤ b)).map (⟨·, kind⟩)

/-- The members of a type as items.  The values of an enumeration are no members of its
instances. -/
def memberItems (r : Registry) (t : TypeDef) (binding : Binding) (inherited : Bool) :
    List Item :=
  let names := r.memberNames t binding inherited
  let fields := if t.kind = .enumeration && binding = .ofInstance then []
    else sorted .field names.fields
  fields ++ sorted .property names.properties ++ sorted .method names.methods

/-- The items after a fragment; where there is none, `it` and its members. -/
def itemsOf (s : Typing.Setting) (listing : Listing) (resolution : Resolution) :
    TypeDef × List Item :=
  let t := resolution.type?.getD s.context
  let members := memberItems s.registry t resolution.binding listing.inherited
  (t, if resolution.type?.isNone then ⟨"it", .variable⟩ :: members else members)

end Completion

/-- What may be typed at the caret; nothing if what stands before the word is wrong. -/
def Typing.Setting.complete (s : Typing.Setting) (listing : Listing) (text : String)
    (caret : Nat) : Except Failure (Option Completion) :=
  match Completion.wordStart? text caret with
  | none => .error (.invalidCaret caret text.utf8ByteSize)
  | some wordStart =>
    match s.analyze text (Completion.beforeWord text wordStart) with
    | .error failure => if failure.isFault then .ok none else .error failure
    | .ok analysis =>
      let (type, items) := Completion.itemsOf s listing analysis.resolution
      .ok (some { type, isStatic := analysis.resolution.isTypeName, wordStart,
                  entered := caret - wordStart, items })

end TypeAhead
