/-
  TypeAhead.Typing.Operand — OPERANDS AND WHAT THEY CONVERT TO.

  An operand is the type of a part of an expression, together with what its form
  allows: an integer literal converts to any number, null to any reference, and
  a discard to anything.  The conversions here decide which operands go together
  and which overload of a member is called.
-/
import TypeAhead.Fault
import TypeAhead.Types.Member
import TypeAhead.Typing.Operator

namespace TypeAhead

/-! ## §1. Operands. -/

/-- The form of an operand, as far as conversions look at it. -/
inductive Form where
  | plain
  /-- An integer literal. -/
  | integer
  | null
  /-- The argument `out _`. -/
  | discard
  deriving Repr, DecidableEq, Inhabited

/-- The type of a part of an expression. -/
structure Operand where
  type : TypeDef
  form : Form := .plain
  /-- The name that the operand gives a member of `new (…)` without an alias. -/
  name : Option String := none
  deriving Repr, Inhabited

namespace Operand

/-- A value of a type. -/
def value (type : TypeDef) : Operand := { type }

/-- A value of a predefined type. -/
def predefined (name : String) : Operand :=
  { type := (predefinedNamed.lookup name).getD Predefined.objectType }

/-- The full name of the type. -/
def typeName (a : Operand) : String := a.type.fullName

/-- Whether the operand is null. -/
def isNull (a : Operand) : Bool := a.form == .null

/-- Whether the operand is an integer literal. -/
def isInteger (a : Operand) : Bool := a.form == .integer

/-- Whether the operand is a truth value. -/
def isBoolean (a : Operand) : Bool := a.typeName == Known.boolean

/-- The full names of the types of two operands; an integer literal takes the numeric type of
the other side. -/
def adapted (left right : Operand) : String × String :=
  let l := left.typeName
  let r := right.typeName
  if left.isInteger && Known.isArithmetic r then (r, r)
  else if right.isInteger && Known.isArithmetic l then (l, l)
  else (l, r)

end Operand

/-- That an operator does not go with its operands. -/
def Token.incompatible (operator : Token) (left right : Operand) : Fault :=
  ⟨.incompatibleOperands operator.text left.type.name right.type.name, operator.start⟩

namespace Registry

variable (r : Registry)

/-! ## §2. Conversions. -/

/-- Whether an operand converts to a type without being asked. -/
def converts (a : Operand) (target : TypeDef) : Bool :=
  match a.form with
  | .discard => true
  | .null => !target.isValueType
  | form =>
    (form == .integer && Known.isArithmetic target.fullName) || a.type.same target ||
      Known.widens a.typeName target.fullName || r.isAssignable a.type target

/-- Whether a type is calculated with like a number. -/
def isNumberLike (t : TypeDef) : Bool :=
  Known.isArithmetic t.fullName || t.kind == .enumeration

/-- Whether an operand converts to a type that is asked for, as in `int(x)`. -/
def casts (a : Operand) (target : TypeDef) : Bool :=
  r.converts a target || r.isAssignable target a.type ||
    (isNumberLike a.type && isNumberLike target)

/-- The operand that two branches have in common. -/
def unify (a b : Operand) (position : Nat) : Except Fault Operand :=
  if a.isNull then .ok { b with name := none }
  else if b.isNull || a.type.same b.type || r.converts b a.type then .ok (.value a.type)
  else if r.converts a b.type then .ok (.value b.type)
  else .error ⟨.neitherConverts a.type.name b.type.name, position⟩

/-- The operand that the elements of an array have in common. -/
def unifyAll (position : Nat) : Option Operand → List Operand → Except Fault (Option Operand)
  | common, [] => .ok common
  | none, a :: rest => unifyAll position (some a) rest
  | some common, a :: rest =>
    match r.unify common a position with
    | .error fault => .error fault
    | .ok common => unifyAll position (some common) rest

/-- Whether two operands can be asked to be equal. -/
def equatable (left right : Operand) : Bool :=
  let (l, s) := left.adapted right
  left.isNull || right.isNull || left.type.same right.type || (Known.promote l s).isSome ||
    r.isAssignable left.type right.type || r.isAssignable right.type left.type ||
    (left.type.kind == .enumeration && right.isInteger) ||
    (right.type.kind == .enumeration && left.isInteger)

/-! ## §3. Overloads. -/

/-- How many parameters have exactly the type of their argument; `none` if the arguments do
not convert to the parameters. -/
def applicability : List Parameter → List Operand → Option Nat
  | [], [] => some 0
  | parameter :: parameters, a :: arguments =>
    match r.get? parameter.type with
    | none => none
    | some target =>
      if r.converts a target then
        let exact := (a.form == .plain || a.form == .integer) && a.type.same target
        (applicability parameters arguments).map (· + exact.toNat)
      else none
  | _, _ => none

/-- Of two candidates with their scores, the better one; the first one of equals. -/
def better {α : Type} (best : Option (Nat × α)) (candidate : Nat × α) : Option (Nat × α) :=
  match best with
  | some (top, _) => if top < candidate.1 then some candidate else best
  | none => some candidate

/-- The candidate that goes best with the arguments, the first one of equals. -/
def selectOverload {α : Type} (candidates : List (List Parameter × α))
    (arguments : List Operand) : Option α :=
  let scored := candidates.filterMap fun (parameters, candidate) =>
    (r.applicability parameters arguments).map fun score => (score, candidate)
  (scored.foldl better none).map Prod.snd

/-- The operand of `T(…)`: a conversion of one argument or a call of a constructor. -/
def construct (target : TypeDef) (arguments : List Operand) (position : Nat) :
    Except Fault Operand :=
  let constructed :=
    (r.selectOverload (target.constructors.map (·, ())) arguments).isSome
  let converted := match arguments with
    | [a] => r.casts a target
    | _ => false
  if constructed || converted then .ok (.value target)
  else .error ⟨.noMatchingConstructor target.name, position⟩

end Registry

end TypeAhead
