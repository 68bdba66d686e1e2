/-
  TypeAhead.Command.Report — HOW ANSWERS ARE SHOWN.

  An answer is shown in a few lines for people, or as a JSON document.
-/
import TypeAhead.Completion
import TypeAhead.Document.Json
import TypeAhead.Text.Escaped

namespace TypeAhead

/-! ## §1. Analyses. -/

namespace Analysis

/-- The analysis as a document; it says what stopped the walk only if something did. -/
def toDocument (a : Analysis) : Document :=
  .table ([("type", .optionalText (a.resolution.type?.map TypeDef.fullName)),
    ("is_class_identifier", .boolean a.resolution.isTypeName),
    ("fragment", .text a.fragment.text), ("fragment_start", .nat a.fragment.start)] ++
    (a.fragment.stoppedBy.map fun fault => ("stopped_by", .text fault.message)).toList)

/-- What the fragment stands for, in a line. -/
def typeLine : Resolution → String
  | .nothing => "type: <context>\n"
  | .value t => s!"type: {t.fullName}\n"
  | .typeName t => s!"type: {t.fullName} (class)\n"

/-- The analysis in lines. -/
def render (a : Analysis) : String :=
  typeLine a.resolution ++ s!"fragment: {Text.escaped a.fragment.text} at {a.fragment.start}\n" ++
    a.fragment.stoppedBy.elim "" fun fault => s!"stopped by: {fault.message}\n"

end Analysis

/-! ## §2. Completion lists. -/

namespace Completion

/-- The list as a document. -/
def toDocument (c : Completion) : Document :=
  .table [("type_name", .text c.type.fullName), ("is_static", .boolean c.isStatic),
    ("word_start", .nat c.wordStart), ("length_entered", .nat c.entered),
    ("items", .list (c.items.map fun item =>
      .table [("name", .text item.name), ("kind", .text item.kind.name)]))]

/-- The list in lines. -/
def renderLines (c : Completion) (listing : Listing) : String :=
  let members := if c.isStatic then "static" else "instance"
  s!"{c.type.fullName} {members} members, {c.entered} typed\n" ++ c.render listing ++ "\n"

/-- The list, if there is one, as a document. -/
def optionalDocument (c : Option Completion) : Document := c.elim .null toDocument

/-- The list, if there is one, in lines. -/
def renderOptional (c : Option Completion) (listing : Listing) : String :=
  c.elim "no completion available\n" fun c => c.renderLines listing

end Completion

end TypeAhead
