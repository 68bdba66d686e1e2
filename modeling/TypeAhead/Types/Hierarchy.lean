/-
  TypeAhead.Types.Hierarchy — BASES, INTERFACES AND WHERE MEMBERS ARE FOUND.

  A type inherits from its bases and interfaces, which are given by name and may
  be missing or form cycles.  Every walk along them is bounded, so that it ends on
  any model.

      baseChain      the type and its bases, the nearest first
      interfaces     the interfaces of all of these
      lookupChain    where members are looked for, in order
-/
import TypeAhead.Types.Registry
import TypeAhead.Limits

namespace TypeAhead.Registry

/-! ## §1. Bases. -/

/-- The base of a type: the one it names, or else the root, which interfaces and the root
itself do not have. -/
def baseType? (r : Registry) (t : TypeDef) : Option TypeDef :=
  match t.base with
  | some base => r.get? base
  | none =>
    if t.kind = .interface || t.fullName = Known.object then none else r.get? Known.object

/-- Lengthens a chain, of which `t` is the last type, by at most `budget` bases. -/
def extendChain (r : Registry) (chain : List TypeDef) (t : TypeDef) : Nat → List TypeDef
  | 0 => chain
  | budget + 1 =>
    match r.baseType? t with
    | none => chain
    | some base =>
      if base.isAmong chain then chain else r.extendChain (chain ++ [base]) base budget

/-- The type and its bases, the nearest first.  The chain ends where there is no base, where
it would repeat a type, and at its bound. -/
def baseChain (r : Registry) (t : TypeDef) : List TypeDef :=
  r.extendChain [t] t (Limits.hierarchy - 1)

/-! ## §2. Interfaces. -/

/-- A search for interfaces. -/
structure Search where
  /-- The interfaces found, in order. -/
  found : List TypeDef := []
  /-- The types whose interfaces are still to be looked at; the first is next. -/
  pending : List TypeDef
  /-- The names looked up. -/
  seen : List String := []

/-- Looks up the name of an interface, unless it was looked up before or enough are found. -/
def Search.visit (r : Registry) (s : Search) (name : String) : Search :=
  if s.seen.contains name then s
  else
    let seen := name :: s.seen
    if s.found.length ≥ Limits.hierarchy then { s with seen }
    else
      match r.get? name with
      | none => { s with seen }
      | some t => { found := s.found ++ [t], pending := t :: s.pending, seen }

/-- Looks at the types that are pending, at most `budget` of them. -/
def Search.run (r : Registry) (s : Search) : Nat → List TypeDef
  | 0 => s.found
  | budget + 1 =>
    match s.pending with
    | [] => s.found
    | t :: pending =>
      (t.interfaces.foldl (visit r) { s with pending }).run r budget

/-- The interfaces of a type, of its bases and of its interfaces.  Only types of the base chain
and interfaces found are ever pending, so that the budget covers all of them. -/
def interfaces (r : Registry) (t : TypeDef) : List TypeDef :=
  Search.run r { pending := (r.baseChain t).reverse } (2 * Limits.hierarchy + 1)

/-- The interfaces and then the bases of a type. -/
def hierarchy (r : Registry) (t : TypeDef) : List TypeDef := r.interfaces t ++ r.baseChain t

/-! ## §3. Where members are found. -/

/-- Adds a type to a chain that does not hold it yet. -/
def addNew (chain : List TypeDef) (t : TypeDef) : List TypeDef :=
  if t.isAmong chain then chain else chain ++ [t]

/-- The types whose members a type has, the nearest first; the root comes last. -/
def lookupChain (r : Registry) (t : TypeDef) : List TypeDef :=
  ((r.interfaces t) ++ (r.get? Known.object).toList).foldl addNew (r.baseChain t)

/-- The type of the elements of a sequence. -/
def elementType? (r : Registry) (t : TypeDef) : Option TypeDef :=
  ((r.lookupChain t).findSome? TypeDef.elementType).bind r.get?

/-- Whether every value of one type is a value of the other. -/
def isAssignable (r : Registry) (source target : TypeDef) : Bool :=
  source.same target || target.fullName == Known.object || target.isAmong (r.lookupChain source)

/-! ## §4. What an expression may name. -/

/-- The types that an expression may name: the predefined ones, those exposed, and the
hierarchy of its context. -/
def accessible (r : Registry) (context : Option TypeDef) : List TypeDef :=
  predefined ++ r.exposed ++ (context.map r.hierarchy).getD []

/-- The accessible type of a simple or a full name. -/
def findAccessible? (r : Registry) (name : String) (context : Option TypeDef) : Option TypeDef :=
  (r.accessible context).find? fun t => t.name == name || t.fullName == name

/-- Whether `start` is the namespace of an accessible type, or the first words of it. -/
def isNamespace (r : Registry) (start : String) (context : Option TypeDef) : Bool :=
  (r.accessible context).any fun t =>
    t.space == start || Text.startsWith t.space (start ++ ".")

end TypeAhead.Registry
