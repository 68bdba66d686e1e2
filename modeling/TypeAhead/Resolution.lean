/-
  TypeAhead.Resolution — WHAT A FRAGMENT STANDS FOR.

  A fragment is a value if it has a type as an expression.  Otherwise it may be
  the bare name of a type, which no expression consists of: one of the
  well-known types, or the type of the context.
-/
import TypeAhead.Legacy
import TypeAhead.Typing.Compile

namespace TypeAhead

/-! ## §1. Typing with a second attempt. -/

/-- The type of a text as an expression; if `retry` is set, a text with a fault is tried again
with its legacy keywords replaced.  The failure is always that of the text itself. -/
def Typing.Setting.compileRetrying (s : Typing.Setting) (retry : Bool) (text : String) :
    Except Failure TypeDef :=
  match s.compile text with
  | .ok t => .ok t
  | .error failure =>
    if failure.isFault && retry then
      match (Legacy.replace? text).map s.compile with
      | some (.ok t) => .ok t
      | _ => .error failure
    else .error failure

/-! ## §2. Names of types. -/

/-- The types that a bare name may denote, in the order in which they are tried. -/
def bareTypes (context : TypeDef) : List TypeDef :=
  Known.wellKnown.filterMap (fun name => predefinedNamed.lookup name) ++ [context]

/-- The type that a bare name denotes, whatever its case. -/
def bareType? (context : TypeDef) (name : String) : Option TypeDef :=
  (bareTypes context).find? fun t => Text.sameWord t.name name

/-! ## §3. Resolution. -/

/-- What a fragment stands for. -/
inductive Resolution where
  /-- The fragment is empty. -/
  | nothing
  /-- A value of a type. -/
  | value (type : TypeDef)
  /-- A type itself. -/
  | typeName (type : TypeDef)
  deriving Repr, Inhabited

namespace Resolution

/-- The type of the fragment. -/
def type? : Resolution → Option TypeDef
  | nothing => none
  | value t | typeName t => some t

/-- Whether the fragment names a type. -/
def isTypeName : Resolution → Bool
  | typeName _ => true
  | _ => false

/-- How members of the fragment are reached. -/
def binding (r : Resolution) : Binding := if r.isTypeName then .ofType else .ofInstance

end Resolution

/-- What a fragment stands for; it fails as an expression if it is not the name of a type. -/
def Typing.Setting.resolve (s : Typing.Setting) (fragment : String) : Except Failure Resolution :=
  if fragment.isEmpty then .ok .nothing
  else
    match s.compileRetrying s.parsing.retryLegacy fragment with
    | .ok t => .ok (.value t)
    | .error failure =>
      match bareType? s.context fragment with
      | some t => .ok (.typeName t)
      | none => .error failure

end TypeAhead
