/-
  TypeAhead.Typing.Operation — THE TYPE OF AN OPERATION.

  What an operator makes of its operands: an operand, or nothing if they do not
  go together.  Integer literals take the numeric type of the other side first.
-/
import TypeAhead.Typing.Operand

namespace TypeAhead.Registry

variable (r : Registry)

/-- Whether two operands can be put in order. -/
def comparable (left right : Operand) : Bool :=
  let (l, s) := left.adapted right
  (Known.promote l s).isSome ||
    (left.type.same right.type && (Known.isOrdered l || left.type.kind == .enumeration))

/-- The bitwise combination of two truth values, integers or values of an enumeration. -/
def bitwise? (left right : Operand) : Option Operand :=
  let (l, s) := left.adapted right
  if l == Known.boolean && s == Known.boolean then some (.value left.type)
  else if Known.isIntegral l && Known.isIntegral s then (Known.promote l s).map .predefined
  else if left.type.kind = .enumeration && left.type.same right.type then some (.value left.type)
  else none

/-- The shift of an integer by a count. -/
def shift? (left right : Operand) : Option Operand :=
  match Known.promoteUnary left.typeName with
  | some result =>
    if Known.isIntegral result && (right.isInteger || Known.widens right.typeName Known.int32) then
      some (.predefined result)
    else none
  | none => none

/-- The concatenation of texts, the sum or difference of times, or a calculation. -/
def arithmetic? (o : Operator) (left right : Operand) : Option Operand :=
  let (l, s) := left.adapted right
  if Known.concatenates o l s then some (.predefined Known.string)
  else (match Known.temporal o l s with
    | some result => some result
    | none => Known.promote l s).map .predefined

/-- What an operator makes of two operands. -/
def operation? (o : Operator) (left right : Operand) : Option Operand :=
  let truth (holds : Bool) : Option Operand :=
    if holds then some (.predefined Known.boolean) else none
  match o with
  | .orElse | .andAlso =>
    if left.isBoolean && right.isBoolean then some (.value left.type) else none
  | .bitwiseAnd | .bitwiseOr => bitwise? left right
  | .equal | .notEqual => truth (r.equatable left right)
  | .lessThan | .lessThanOrEqual | .greaterThan | .greaterThanOrEqual =>
    truth (comparable left right)
  | .shiftLeft | .shiftRight => shift? left right
  | .add | .subtract | .multiply | .divide | .modulo => arithmetic? o left right

/-- What the operator of a token makes of two operands. -/
def operate (o : Operator) (token : Token) (left right : Operand) : Except Fault Operand :=
  match r.operation? o left right with
  | some result => .ok result
  | none => .error (token.incompatible left right)

/-- What a minus or a negation makes of an operand.  A negation takes truth values, and integers
for their bitwise complement. -/
def operateUnary (token : Token) (a : Operand) : Except Fault Operand :=
  let result := if token.kind = .minus then Known.negate a.typeName
    else if a.isBoolean then some Known.boolean
    else (Known.promoteUnary a.typeName).filter Known.isIntegral
  match result with
  | some name => .ok (.predefined name)
  | none => .error ⟨.incompatibleOperand token.text a.type.name, token.start⟩

/-- What asking for an operand in a sequence of elements makes. -/
def contained (token : Token) (left element : Operand) : Except Fault Unit :=
  if r.equatable left element then .ok () else .error (token.incompatible left element)

end TypeAhead.Registry
