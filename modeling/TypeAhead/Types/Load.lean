/-
  TypeAhead.Types.Load — MODELS FROM FILES.

  The ending of the name of a file says whether the model in it is a TOML or a
  JSON document.
-/
import TypeAhead.Document.Json
import TypeAhead.Document.Toml
import TypeAhead.Files
import TypeAhead.Text.Case
import TypeAhead.Types.Model

namespace TypeAhead.TypeModel

/-- The model of a TOML text. -/
def ofToml (text : String) : Except ModelFault TypeModel :=
  match (Toml.read? text).bind (ofDocument? .toml) with
  | some model => .ok model
  | none => .error .badToml

/-- The model of a JSON text. -/
def ofJson (text : String) : Except ModelFault TypeModel :=
  match (Json.read? text).bind (ofDocument? .json) with
  | some model => .ok model
  | none => .error .badJson

/-- The model of a file. -/
def ofFile (files : Files) (path : String) : Except ModelFault TypeModel :=
  match files path with
  | .error reason => .error (.unread path reason)
  | .ok text =>
    match (fileExtension? path).map Text.lower with
    | some "toml" => ofToml text
    | some "json" => ofJson text
    | _ => .error (.unsupportedFormat path)

end TypeAhead.TypeModel
