/-
  TypeAhead.Types.Model — MODELS OF TYPES AS DOCUMENTS.

  A model lists custom types, says which of them every expression may name, and
  names the type of the context.  It becomes a registry if its types have names
  of their own and mention only types that are known.
-/
import TypeAhead.Document.Basic
import TypeAhead.Types.Registry

namespace TypeAhead

/-! ## §1. Models. -/

/-- A model of types. -/
structure TypeModel where
  /-- The name of the type of the context. -/
  context : Option String := none
  /-- The names of types that every expression may name. -/
  expose : List String := []
  types : List TypeDef := []
  deriving Repr, DecidableEq, Inhabited

/-- A registry with the type of its context. -/
structure LoadedModel where
  registry : Registry
  context : Option TypeDef
  deriving Repr, Inhabited

namespace TypeModel

/-- The registry with more types. -/
def registerAll (r : Registry) : List TypeDef → Except ModelFault Registry
  | [] => .ok r
  | t :: types =>
    match r.register t with
    | .error fault => .error fault
    | .ok r => registerAll r types

/-- The registry with more types exposed. -/
def exposeAll (r : Registry) : List String → Except ModelFault Registry
  | [] => .ok r
  | name :: names =>
    match r.expose name with
    | .error fault => .error fault
    | .ok (r, _) => exposeAll r names

/-- The registry of a model: its types are registered, what they mention is checked, and the
names that the model gives are looked up. -/
def load (m : TypeModel) : Except ModelFault LoadedModel := do
  let registry ← registerAll .empty m.types
  registry.validate
  let registry ← exposeAll registry m.expose
  match m.context with
  | none => pure { registry, context := none }
  | some name =>
    match registry.get? name with
    | none => .error (.unknown name)
    | some t => pure { registry, context := some t }

end TypeModel

/-! ## §2. Reading. -/

section

open Document

variable (format : Format)

/-- Reads a field or a property. -/
def DataMember.ofDocument? (d : Document) : Option DataMember := do
  let fields ← d.fields? format ["name", "type", "is_static"]
  let name ← required? text? fields 0
  let type ← required? text? fields 1
  let isStatic ← withDefault? false boolean? fields 2
  some { name, type, isStatic }

/-- Reads a parameter. -/
def Parameter.ofDocument? (d : Document) : Option Parameter := do
  let fields ← d.fields? format ["name", "type"]
  let name ← withDefault? "" text? fields 0
  let type ← required? text? fields 1
  some { name, type }

/-- Reads a method. -/
def Method.ofDocument? (d : Document) : Option Method := do
  let fields ← d.fields? format ["name", "parameters", "returns", "is_static"]
  let name ← required? text? fields 0
  let parameters ← withDefault? [] (list? (Parameter.ofDocument? format)) fields 1
  let returns ← required? text? fields 2
  let isStatic ← withDefault? false boolean? fields 3
  some { name, parameters, returns, isStatic }

/-- Reads an indexer. -/
def Indexer.ofDocument? (d : Document) : Option Indexer := do
  let fields ← d.fields? format ["parameters", "type"]
  let parameters ← required? (list? (Parameter.ofDocument? format)) fields 0
  let type ← required? text? fields 1
  some { parameters, type }

/-- Reads the parameters of a constructor. -/
def constructorOfDocument? (d : Document) : Option (List Parameter) := do
  let fields ← d.fields? format ["parameters"]
  withDefault? [] (list? (Parameter.ofDocument? format)) fields 0

/-- Reads a type. -/
def TypeDef.ofDocument? (d : Document) : Option TypeDef := do
  let fields ← d.fields? format
    ["name", "namespace", "kind", "base", "interfaces", "element_type", "fields", "properties",
      "methods", "indexers", "constructors"]
  let name ← required? text? fields 0
  let space ← withDefault? "" text? fields 1
  let kind ← withDefault? .object (choice? format TypeKind.ofName?) fields 2
  let base ← withDefault? none (option? text?) fields 3
  let interfaces ← withDefault? [] (list? text?) fields 4
  let elementType ← withDefault? none (option? text?) fields 5
  let members := list? (DataMember.ofDocument? format)
  let own ← withDefault? [] members fields 6
  let properties ← withDefault? [] members fields 7
  let methods ← withDefault? [] (list? (Method.ofDocument? format)) fields 8
  let indexers ← withDefault? [] (list? (Indexer.ofDocument? format)) fields 9
  let constructors ← withDefault? [] (list? (constructorOfDocument? format)) fields 10
  some { name, space, kind, base, interfaces, elementType, fields := own, properties, methods,
         indexers, constructors }

/-- Reads a model. -/
def TypeModel.ofDocument? (d : Document) : Option TypeModel := do
  let fields ← d.fields? format ["context", "expose", "types"]
  let context ← withDefault? none (option? text?) fields 0
  let expose ← withDefault? [] (list? text?) fields 1
  let types ← withDefault? [] (list? (TypeDef.ofDocument? format)) fields 2
  some { context, expose, types }

end

/-! ## §3. Writing. -/

/-- Writes a field or a property. -/
def DataMember.toDocument (m : DataMember) : Document :=
  .table [("name", .text m.name), ("type", .text m.type), ("is_static", .boolean m.isStatic)]

/-- Writes a parameter. -/
def Parameter.toDocument (p : Parameter) : Document :=
  .table [("name", .text p.name), ("type", .text p.type)]

/-- Writes parameters. -/
def parametersToDocument (parameters : List Parameter) : Document :=
  .list (parameters.map Parameter.toDocument)

/-- Writes a method. -/
def Method.toDocument (m : Method) : Document :=
  .table [("name", .text m.name), ("parameters", parametersToDocument m.parameters),
    ("returns", .text m.returns), ("is_static", .boolean m.isStatic)]

/-- Writes an indexer. -/
def Indexer.toDocument (i : Indexer) : Document :=
  .table [("parameters", parametersToDocument i.parameters), ("type", .text i.type)]

/-- Writes a type, with all its fields. -/
def TypeDef.toDocument (t : TypeDef) : Document :=
  .table [("name", .text t.name), ("namespace", .text t.space), ("kind", .text t.kind.name),
    ("base", .optionalText t.base), ("interfaces", .texts t.interfaces),
    ("element_type", .optionalText t.elementType),
    ("fields", .list (t.fields.map DataMember.toDocument)),
    ("properties", .list (t.properties.map DataMember.toDocument)),
    ("methods", .list (t.methods.map Method.toDocument)),
    ("indexers", .list (t.indexers.map Indexer.toDocument)),
    ("constructors", .list (t.constructors.map fun parameters =>
      .table [("parameters", parametersToDocument parameters)]))]

/-- Writes a model. -/
def TypeModel.toDocument (m : TypeModel) : Document :=
  .table [("context", .optionalText m.context), ("expose", .texts m.expose),
    ("types", .list (m.types.map TypeDef.toDocument))]

end TypeAhead
