/-
  TypeAhead.Types.Registry — WHAT TYPE NAMES MEAN.

  A registry holds custom types beside the predefined ones, and says which of
  them every expression may name.  A name means the type of that full name, or
  the type that a keyword stands for; with `[]` behind it, an array of it.
  Custom types have full names of their own, so that a full name never changes its
  meaning once it has one.  A keyword does, if it becomes the full name of a type.

  Full names are looked up in a table, while the custom types are listed in their
  order as well.  Both are changed one after the other, so that they have to be kept
  together: a catalog is what is stored, and a registry is a catalog of which the
  table and the list say the same.
-/
import TypeAhead.Types.Predefined
import TypeAhead.Text.Case
import TypeAhead.Code

namespace TypeAhead

/-! ## §1. What can be wrong with a model of types. -/

/-- What is wrong with a model of types. -/
inductive ModelFault where
  /-- The file could not be read. -/
  | unread (path reason : String)
  /-- The text is not a TOML document of a model. -/
  | badToml
  /-- The text is not a JSON document of a model. -/
  | badJson
  /-- The name of the file ends neither in `.toml` nor in `.json`. -/
  | unsupportedFormat (path : String)
  | duplicate (name : String)
  | unknown (name : String)
  /-- A custom type mentions a type that is not registered. -/
  | unresolved (owner mentioned : String)
  deriving Repr, DecidableEq, Inhabited

namespace ModelFault

/-- The wording, where it is this library's own. -/
def message? : ModelFault → Option String
  | unread path reason => some s!"Failed to read type model '{path}': {reason}"
  | badToml | badJson => none
  | unsupportedFormat path =>
    some s!"Unsupported type model format '{path}' (expected .toml or .json)"
  | duplicate name => some s!"Type '{name}' is registered twice"
  | unknown name => some s!"Unknown type '{name}'"
  | unresolved owner mentioned => some s!"Type '{mentioned}' used by '{owner}' is not registered"

/-- The code under which the fault is reported. -/
def code : ModelFault → Code
  | unread .. => .modelUnread
  | badToml | badJson | unsupportedFormat _ => .modelMalformed
  | duplicate _ | unknown _ | unresolved .. => .modelInvalid

end ModelFault

/-! ## §2. Arrays. -/

/-- The array type of an element type. -/
def TypeDef.array (element : TypeDef) : TypeDef :=
  { name := element.name ++ "[]", space := element.space, kind := .array,
    elementType := element.fullName,
    properties := [Predefined.own "Length" Known.int32, Predefined.own "LongLength" Known.int64],
    indexers := [⟨Predefined.parameters [Known.int32], element.fullName⟩] }

/-- The array type of a rank over an element type. -/
def TypeDef.arrayOfRank (element : TypeDef) : Nat → TypeDef
  | 0 => element
  | rank + 1 => (element.arrayOfRank rank).array

/-- The number of `[]` at the end of a name, which is given backwards, and what is left. -/
def arrayRank : List Char → Nat × List Char
  | ']' :: '[' :: cs => let (rank, stem) := arrayRank cs; (rank + 1, stem)
  | cs => (0, cs)

/-! ## §3. Catalogs. -/

/-- What is kept of types: a table of their full names, and two lists. -/
structure Catalog where
  /-- The types with their full names.  What is entered last stands first, and is found first. -/
  types : List (String × TypeDef)
  /-- The custom types, in the order of their registration. -/
  custom : List TypeDef := []
  /-- Types that every expression may name, besides the predefined ones. -/
  exposed : List TypeDef := []
  deriving Repr

namespace Catalog

/-- The catalog of the predefined types alone. -/
def ofPredefined : Catalog := { types := predefinedNamed }

/-- The type of a full name. -/
def ofFullName? (c : Catalog) (name : String) : Option TypeDef := c.types.lookup name

/-- The type of a full name or a keyword. -/
def ofName? (c : Catalog) (name : String) : Option TypeDef :=
  match c.ofFullName? name with
  | some t => some t
  | none => (Known.ofKeyword? name).bind c.ofFullName?

/-- The type that a name means. -/
def get? (c : Catalog) (name : String) : Option TypeDef :=
  let (rank, stem) := arrayRank name.toList.reverse
  if rank = 0 then c.ofName? name
  else (c.ofName? (String.ofList stem.reverse)).map (TypeDef.arrayOfRank · rank)

/-- The type that a name means, or else the first custom type of that simple name. -/
def named? (c : Catalog) (name : String) : Option TypeDef :=
  (c.get? name).or (c.custom.find? fun t => t.name == name)

/-- Adds a custom type.  Its full name has to be new, and cannot be that of an array. -/
def register (t : TypeDef) : EStateM ModelFault Catalog TypeDef := do
  let name := t.fullName
  if ((← get).ofFullName? name).isSome || (arrayRank name.toList.reverse).1 ≠ 0 then
    throw (.duplicate name)
  modify fun c => { c with types := (name, t) :: c.types }
  modify fun c => { c with custom := c.custom ++ [t] }
  return t

/-- Lets every expression name a type. -/
def expose (name : String) : EStateM ModelFault Catalog TypeDef := do
  match (← get).get? name with
  | none => throw (.unknown name)
  | some t =>
    unless t.isAmong (← get).exposed do
      modify fun c => { c with exposed := c.exposed ++ [t] }
    return t

/-- The first name that a type mentions and that means nothing. -/
def dangling? (c : Catalog) (t : TypeDef) : Option String :=
  t.mentions.find? fun name => (c.get? name).isNone

/-- Faults with the first custom type that mentions a type which is not registered. -/
def validate (c : Catalog) : Except ModelFault Unit :=
  match c.custom.findSome? fun t => (c.dangling? t).map (t.fullName, ·) with
  | some (owner, mentioned) => .error (.unresolved owner mentioned)
  | none => .ok ()

/-! ## §4. Names and lists. -/

/-- The table and the list of custom types say the same: a full name means a predefined type, or else the
first custom type that has it. -/
def Coherent (c : Catalog) : Prop := ∀ name, c.ofFullName? name =
  (predefinedNamed.lookup name).or (c.custom.find? fun t => t.fullName == name)

variable {c d : Catalog} {t u : TypeDef} {name : String}

theorem coherent_ofPredefined : ofPredefined.Coherent := fun _ => Option.or_none.symm

/-- A catalog with one more custom type. -/
def add (c : Catalog) (t : TypeDef) : Catalog :=
  { c with types := (t.fullName, t) :: c.types, custom := c.custom ++ [t] }

/-- What a registration leaves: all as it was if it fails, and one more type in the table and in the list
if it does not. -/
theorem run_register (c : Catalog) (t : TypeDef) : (register t).run c =
    if (c.ofFullName? t.fullName).isSome || (arrayRank t.fullName.toList.reverse).1 ≠ 0 then
      .error (.duplicate t.fullName) c
    else .ok t (c.add t) := by
  simp only [register, EStateM.run_bind, EStateM.run_get]
  split
  · rfl
  · rfl

/-- What an exposure leaves: all as it was if it fails, and the type among the exposed ones if it does not. -/
theorem run_expose (c : Catalog) (name : String) : (expose name).run c =
    match c.get? name with
    | none => .error (.unknown name) c
    | some t => .ok t (if t.isAmong c.exposed then c else { c with exposed := c.exposed ++ [t] }) := by
  simp only [expose, EStateM.run_bind, EStateM.run_get]
  cases c.get? name with
  | none => rfl
  | some t =>
    simp only [EStateM.run_bind, EStateM.run_get]
    split
    · rfl
    · rfl

/-- A new type stands last in the list, and nothing else has its name. -/
theorem Coherent.add (hc : c.Coherent) (hnew : c.ofFullName? t.fullName = none) : (c.add t).Coherent := by
  intro name
  rw [hc] at hnew
  show ((t.fullName, t) :: c.types).lookup name =
    (predefinedNamed.lookup name).or ((c.custom ++ [t]).find? fun t => t.fullName == name)
  rw [List.find?_append, ← Option.or_assoc, ← hc]
  by_cases hname : name = t.fullName
  · rw [hname, hc, hnew]
    simp
  · have hother : (t.fullName == name) = false := beq_false_of_ne (Ne.symm hname)
    simp only [List.lookup_cons, beq_false_of_ne hname, List.find?_singleton, hother]
    exact Option.or_none.symm

/-- **A registration keeps names and lists together**, whether it succeeds or fails. -/
theorem Coherent.register (hc : c.Coherent) (h : (Catalog.register t).run c = .ok u d) : d.Coherent := by
  rw [run_register] at h
  split at h
  · cases h
  · rename_i htaken
    cases h
    rw [Bool.or_eq_true, not_or] at htaken
    exact hc.add (Option.not_isSome_iff_eq_none.1 htaken.1)

/-- To expose a type is no matter of names. -/
theorem Coherent.expose (hc : c.Coherent) (h : (Catalog.expose name).run c = .ok u d) : d.Coherent := by
  rw [run_expose] at h
  split at h
  · cases h
  · cases h
    split
    · exact hc
    · exact hc

end Catalog

/-! ## §5. Registries. -/

/-- A catalog of which the table and the list of custom types say the same. -/
structure Registry extends Catalog where
  coherent : toCatalog.Coherent
  deriving Repr

namespace Registry

/-- The registry of the predefined types alone. -/
def empty : Registry := ⟨.ofPredefined, Catalog.coherent_ofPredefined⟩

instance : Inhabited Registry := ⟨empty⟩

/-- Makes a change to the catalog that keeps names and lists together.  Where it fails, its fault is the
answer. -/
def change (r : Registry) (x : EStateM ModelFault Catalog TypeDef)
    (hx : ∀ {t c}, x.run r.toCatalog = .ok t c → c.Coherent) : Except ModelFault (Registry × TypeDef) :=
  match h : x.run r.toCatalog with
  | .ok t c => .ok (⟨c, hx h⟩, t)
  | .error fault _ => .error fault

/-- Adds a custom type. -/
def register (r : Registry) (t : TypeDef) : Except ModelFault Registry :=
  (r.change (Catalog.register t) r.coherent.register).map Prod.fst

/-- Lets every expression name a type, and returns it. -/
def expose (r : Registry) (name : String) : Except ModelFault (Registry × TypeDef) :=
  r.change (Catalog.expose name) r.coherent.expose

end Registry

end TypeAhead
