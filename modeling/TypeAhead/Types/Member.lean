/-
  TypeAhead.Types.Member — FINDING MEMBERS.

  Members are looked for along the lookup chain of a type.  Fields come before
  properties of the same type, a nearer declaration before a farther one, and a
  method hides one with the same types of parameters that is declared farther
  away.
-/
import TypeAhead.Types.Hierarchy

namespace TypeAhead

/-! ## §1. Members. -/

/-- Whether members are reached through an instance or through the name of the type. -/
inductive Binding where
  | ofInstance
  | ofType
  deriving Repr, DecidableEq, Inhabited

/-- Whether a member is reached. -/
def Binding.admits (b : Binding) (isStatic : Bool) : Bool :=
  match b with
  | .ofInstance => !isStatic
  | .ofType => isStatic

/-- A field or a property that was found. -/
structure FoundMember where
  name : String
  isField : Bool
  /-- The full name of its type. -/
  type : String
  /-- The full name of the type that declares it. -/
  owner : String
  deriving Repr, DecidableEq, Inhabited

/-- The first member of a list that is reached and has the name. -/
def DataMember.find? (members : List DataMember) (name : String) (binding : Binding)
    (ignoreCase : Bool) : Option DataMember :=
  members.find? fun m => binding.admits m.isStatic && Text.sameName ignoreCase m.name name

/-- A field or property that a type itself declares. -/
def TypeDef.member? (t : TypeDef) (name : String) (binding : Binding) (ignoreCase : Bool) :
    Option FoundMember :=
  match DataMember.find? t.fields name binding ignoreCase with
  | some m => some ⟨m.name, true, m.type, t.fullName⟩
  | none =>
    (DataMember.find? t.properties name binding ignoreCase).map
      fun m => ⟨m.name, false, m.type, t.fullName⟩

/-- The methods of a name that a type itself declares. -/
def TypeDef.methodsOf (t : TypeDef) (name : String) (binding : Binding) (ignoreCase : Bool) :
    List Method :=
  t.methods.filter fun m => binding.admits m.isStatic && Text.sameName ignoreCase m.name name

/-- Whether two methods have parameters of the same types. -/
def Method.sameParameters (a b : Method) : Bool :=
  a.parameters.map Parameter.type == b.parameters.map Parameter.type

/-- Adds a method, unless one with the same types of parameters is there. -/
def Method.addNew (methods : List Method) (m : Method) : List Method :=
  if methods.any (·.sameParameters m) then methods else methods ++ [m]

namespace Registry

/-- The nearest field or property of a name. -/
def findMember? (r : Registry) (t : TypeDef) (name : String) (binding : Binding)
    (ignoreCase : Bool) : Option FoundMember :=
  (r.lookupChain t).findSome? fun owner => owner.member? name binding ignoreCase

/-- The methods of a name, the nearest first, without those that are hidden. -/
def findMethods (r : Registry) (t : TypeDef) (name : String) (binding : Binding)
    (ignoreCase : Bool) : List Method :=
  ((r.lookupChain t).flatMap fun owner => owner.methodsOf name binding ignoreCase).foldl
    Method.addNew []

/-- The indexers of the nearest type that has any. -/
def findIndexers (r : Registry) (t : TypeDef) : List Indexer :=
  (((r.lookupChain t).map TypeDef.indexers).find? fun indexers => !indexers.isEmpty).getD []

end Registry

/-! ## §2. The names of members. -/

/-- The names of members, grouped as a completion list shows them. -/
structure MemberNames where
  fields : List String := []
  properties : List String := []
  methods : List String := []
  deriving Repr, DecidableEq, Inhabited

/-- Adds a name that is not there yet. -/
def MemberNames.addNew (names : List String) (name : String) : List String :=
  if names.contains name then names else names ++ [name]

/-- The names, each once. -/
def MemberNames.distinct (names : List String) : List String := names.foldl addNew []

/-- The names of the members that are reached in a type.  Static members are those of the type
itself; those of instances include inherited ones if asked for. -/
def Registry.memberNames (r : Registry) (t : TypeDef) (binding : Binding) (inherited : Bool) :
    MemberNames :=
  let owners := if binding = .ofInstance && inherited then r.lookupChain t else [t]
  let reached (members : TypeDef → List DataMember) : List String :=
    owners.flatMap fun owner =>
      ((members owner).filter fun m => binding.admits m.isStatic).map DataMember.name
  let methods := owners.flatMap fun owner =>
    (owner.methods.filter fun m => binding.admits m.isStatic).map Method.name
  { fields := MemberNames.distinct (reached TypeDef.fields),
    properties := MemberNames.distinct (reached TypeDef.properties),
    methods := MemberNames.distinct methods }

end TypeAhead
