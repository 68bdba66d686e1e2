/-
  TypeAhead.Types.Basic — DESCRIPTIONS OF TYPES.

  A type is described by its name, its kind and its members.  Descriptions name
  other types by their full names, so that types may mention each other freely;
  a registry says what a name means.  Two descriptions are of the same type if
  they have the same name in the same namespace, whatever members they list.
-/
namespace TypeAhead

/-! ## §1. Members. -/

/-- The kinds of types. -/
inductive TypeKind where
  /-- A class, of which references may be null. -/
  | object
  /-- A struct, whose values are never null. -/
  | value
  /-- A set of named values. -/
  | enumeration
  /-- A holder of static members, without instances. -/
  | holder
  | interface
  | array
  deriving Repr, DecidableEq, Inhabited

/-- The kinds with their names in documents. -/
def TypeKind.names : List (TypeKind × String) :=
  [(.object, "class"), (.value, "struct"), (.enumeration, "enum"), (.holder, "static"),
    (.interface, "interface"), (.array, "array")]

/-- The name of a kind in documents. -/
def TypeKind.name (k : TypeKind) : String := (names.lookup k).getD ""

/-- The kind of a name in documents. -/
def TypeKind.ofName? (name : String) : Option TypeKind :=
  (names.find? fun entry => entry.2 == name).map Prod.fst

/-- A field or a property. -/
structure DataMember where
  name : String
  /-- The full name of its type. -/
  type : String
  isStatic : Bool := false
  deriving Repr, DecidableEq, Inhabited

/-- A parameter of a method, an indexer or a constructor. -/
structure Parameter where
  name : String := ""
  /-- The full name of its type. -/
  type : String
  deriving Repr, DecidableEq, Inhabited

/-- A method. -/
structure Method where
  name : String
  parameters : List Parameter := []
  /-- The full name of the type that it returns. -/
  returns : String
  isStatic : Bool := false
  deriving Repr, DecidableEq, Inhabited

/-- An indexer, the member behind `a[i]`. -/
structure Indexer where
  parameters : List Parameter
  /-- The full name of the type of an element. -/
  type : String
  deriving Repr, DecidableEq, Inhabited

/-! ## §2. Types. -/

/-- The description of a type. -/
structure TypeDef where
  name : String
  /-- The namespace; empty outside of any. -/
  space : String := ""
  kind : TypeKind := .object
  /-- The full name of the base type, if it is given. -/
  base : Option String := none
  /-- The full names of the interfaces. -/
  interfaces : List String := []
  /-- The full name of the type of the elements of a sequence. -/
  elementType : Option String := none
  fields : List DataMember := []
  properties : List DataMember := []
  methods : List Method := []
  indexers : List Indexer := []
  constructors : List (List Parameter) := []
  deriving Repr, DecidableEq, Inhabited

namespace TypeDef

/-- The name with the namespace before it. -/
def fullName (t : TypeDef) : String :=
  if t.space.isEmpty then t.name else t.space ++ "." ++ t.name

/-- Whether two descriptions are of the same type. -/
def same (a b : TypeDef) : Bool := a.space == b.space && a.name == b.name

/-- Whether the type is among others. -/
def isAmong (t : TypeDef) (types : List TypeDef) : Bool := types.any t.same

/-- Whether values of the type are never null. -/
def isValueType (t : TypeDef) : Bool := t.kind == .value || t.kind == .enumeration

/-- Every type name that the description mentions, in the order in which they are checked. -/
def mentions (t : TypeDef) : List String :=
  t.base.toList ++ t.interfaces ++ t.elementType.toList ++
    t.fields.map DataMember.type ++ t.properties.map DataMember.type ++
    t.methods.flatMap (fun m => m.returns :: m.parameters.map Parameter.type) ++
    t.indexers.flatMap (fun i => i.type :: i.parameters.map Parameter.type) ++
    t.constructors.flatMap (List.map Parameter.type)

theorem same_refl (t : TypeDef) : t.same t = true := by simp [same]

theorem same_symm {a b : TypeDef} (h : a.same b = true) : b.same a = true := by
  simp only [same, Bool.and_eq_true, beq_iff_eq] at h ⊢
  exact ⟨h.1.symm, h.2.symm⟩

/-- The same type has the same full name. -/
theorem fullName_eq_of_same {a b : TypeDef} (h : a.same b = true) : a.fullName = b.fullName := by
  simp only [same, Bool.and_eq_true, beq_iff_eq] at h
  simp [fullName, h.1, h.2]

end TypeDef

end TypeAhead
