/-
  TypeAhead.Typing.Operator — WHAT OPERATORS MAKE OF TYPES.

  The tables of operators over the full names of types: which types are numbers,
  which convert to which without being asked, and which type an operation on two
  of them has.  Conversions of literals, of null and of references are laid on
  top of these tables elsewhere.
-/
import TypeAhead.Token.Basic
import TypeAhead.Types.Predefined

namespace TypeAhead

/-! ## §1. Operators. -/

/-- The operators between two operands. -/
inductive Operator where
  | orElse
  | andAlso
  | bitwiseAnd
  | bitwiseOr
  | equal
  | notEqual
  | lessThan
  | lessThanOrEqual
  | greaterThan
  | greaterThanOrEqual
  | shiftLeft
  | shiftRight
  | add
  | subtract
  | multiply
  | divide
  | modulo
  deriving Repr, DecidableEq, Inhabited

namespace Operator

/-- The operator of a symbol. -/
def ofToken? : TokenKind → Option Operator
  | .doubleBar => some orElse
  | .doubleAmpersand => some andAlso
  | .ampersand => some bitwiseAnd
  | .bar => some bitwiseOr
  | .equal | .doubleEqual => some equal
  | .notEqual | .lessGreater => some notEqual
  | .lessThan => some lessThan
  | .lessThanEqual => some lessThanOrEqual
  | .greaterThan => some greaterThan
  | .greaterThanEqual => some greaterThanOrEqual
  | .shiftLeft => some shiftLeft
  | .shiftRight => some shiftRight
  | .plus => some add
  | .minus => some subtract
  | .asterisk => some multiply
  | .slash => some divide
  | .percent => some modulo
  | _ => none

/-- Whether the operator asks if two values are the same. -/
def isEquality (o : Operator) : Bool := o == equal || o == notEqual

/-- Whether the operator asks which of two values comes first. -/
def isRelational (o : Operator) : Bool :=
  o == lessThan || o == lessThanOrEqual || o == greaterThan || o == greaterThanOrEqual

end Operator

namespace Known

/-! ## §2. Classes of types. -/

/-- The integers. -/
def isIntegral (name : String) : Bool :=
  [sbyte, byte, int16, uint16, int32, uint32, int64, uint64].contains name

/-- The integers with a sign. -/
def isSigned (name : String) : Bool := [sbyte, int16, int32, int64].contains name

/-- The types that take part in arithmetic: numbers and characters. -/
def isArithmetic (name : String) : Bool :=
  name == char || isIntegral name || [single, double, decimal].contains name

/-- The types of which values can be put in order. -/
def isOrdered (name : String) : Bool :=
  isArithmetic name || [string, dateTime, dateTimeOffset, timeSpan, guid].contains name

/-! ## §3. Conversions and results. -/

/-- The types to which a number converts without being asked. -/
def widenings : List (String × List String) :=
  [(sbyte, [int16, int32, int64, single, double, decimal]),
    (byte, [int16, uint16, int32, uint32, int64, uint64, single, double, decimal]),
    (int16, [int32, int64, single, double, decimal]),
    (uint16, [int32, uint32, int64, uint64, single, double, decimal]),
    (int32, [int64, single, double, decimal]),
    (uint32, [int64, uint64, single, double, decimal]),
    (int64, [single, double, decimal]),
    (uint64, [single, double, decimal]),
    (char, [uint16, int32, uint32, int64, uint64, single, double, decimal]),
    (single, [double])]

/-- Whether a number converts without being asked. -/
def widens (source target : String) : Bool :=
  if source == target then isArithmetic source
  else ((widenings.lookup source).getD []).contains target

/-- The type in which two numbers are calculated with: the widest that holds both.  Decimal
and binary fractions do not mix, nor the largest unsigned integer with signed ones. -/
def promote (left right : String) : Option String :=
  let either (name : String) : Bool := left == name || right == name
  let signed : Bool := isSigned left || isSigned right
  if !isArithmetic left || !isArithmetic right then none
  else if either decimal then if either single || either double then none else some decimal
  else if either double then some double
  else if either single then some single
  else if either uint64 then if signed then none else some uint64
  else if either int64 then some int64
  else if either uint32 then if signed then some int64 else some uint32
  else some int32

/-- The type in which one number is calculated with. -/
def promoteUnary (operand : String) : Option String := promote operand operand

/-- The type of a value with a minus before it. -/
def negate (operand : String) : Option String :=
  if operand = uint64 then none
  else if operand = uint32 then some int64
  else if operand = timeSpan then some timeSpan
  else promoteUnary operand

/-- The type of a sum or difference of times. -/
def temporal (o : Operator) (left right : String) : Option String :=
  if o = .add && left = timeSpan && right = timeSpan then some timeSpan
  else if o = .add && [dateTime, dateTimeOffset].contains left && right = timeSpan then some left
  else if o = .subtract && [dateTime, dateTimeOffset, timeSpan].contains left then
    if right = timeSpan then some left else if right = left then some timeSpan else none
  else none

/-- Whether an addition puts texts together. -/
def concatenates (o : Operator) (left right : String) : Bool :=
  o == .add && (left == string || right == string)

end Known

end TypeAhead
