/-
  TypeAhead.Literal.Number — THE TYPES OF NUMERIC LITERALS.

  An integer has the first type that holds its value among those that its suffix
  leaves open; a minus before the literal counts as part of it.  A real number
  has the type that its suffix names, and binary double precision without one.

      valueWithin_eq_min     the digits of an integer are read up to a limit
-/
import TypeAhead.Literal.Quoted
import TypeAhead.Types.Predefined

namespace TypeAhead.Literal

/-! ## §1. Integers. -/

/-- The marks that an integer may end with. -/
def isIntegerMark (c : Char) : Bool := c.toLower = 'u' || c.toLower = 'l'

/-- The least number that no integer type holds. -/
def Integer.bound : Nat := 18446744073709551616

/-- The number that digits write, or `limit` if it is not below that; the work for a digit does
not grow with the number of digits. -/
def valueWithin (limit base : Nat) (digits : List Char) : Nat :=
  digits.foldl (fun n c => min limit (n * base + digitValue c)) 0

/-- One more digit after a number that was cut off. -/
theorem min_mul_add {base : Nat} (positive : 0 < base) (limit n d : Nat) :
    min limit (min limit n * base + d) = min limit (n * base + d) := by
  by_cases h : n ≤ limit
  · rw [Nat.min_eq_right h]
  · have long : limit ≤ limit * base := Nat.le_mul_of_pos_right limit positive
    have longer : limit * base ≤ n * base := Nat.mul_le_mul_right base (by omega)
    rw [Nat.min_eq_left (by omega : limit ≤ n)]
    omega

/-- A number is cut off at `limit` and is otherwise the one that the digits write. -/
theorem valueWithin_eq_min {base : Nat} (positive : 0 < base) (limit : Nat)
    (digits : List Char) : valueWithin limit base digits = min limit (digitsValue base digits) := by
  suffices step : ∀ n,
      digits.foldl (fun n c => min limit (n * base + digitValue c)) (min limit n) =
        min limit (digits.foldl (fun n c => n * base + digitValue c) n) by
    simpa [valueWithin, digitsValue] using step 0
  induction digits with
  | nil => intro n; rfl
  | cons c cs ih =>
    intro n
    rw [List.foldl_cons, List.foldl_cons, min_mul_add positive, ih]

/-- An integer literal taken apart. -/
structure Integer where
  negative : Bool
  /-- The absolute value, up to the bound of all integer types. -/
  magnitude : Nat
  /-- The suffix in lower case. -/
  suffix : List Char
  deriving Repr, DecidableEq

/-- The number that digits write, up to the bound of all integer types, if they are digits of the
base and there is one. -/
def magnitude? (base : Nat) (isDigit : Char → Bool) (digits : List Char) : Option Nat :=
  if digits.isEmpty || !digits.all isDigit then none
  else some (valueWithin Integer.bound base digits)

/-- Takes an integer literal apart. -/
def Integer.ofText? (text : String) : Option Integer :=
  let cs := text.toList
  let negative := cs.head? == some '-'
  let body := if negative then cs.drop 1 else cs
  let marks := (body.reverse.takeWhile isIntegerMark).reverse
  let digits := body.take (body.length - marks.length)
  let magnitude := match digits with
    | '0' :: 'x' :: hex | '0' :: 'X' :: hex => magnitude? 16 Scan.isHexDigit hex
    | _ => magnitude? 10 Char.isDigit digits
  magnitude.map fun magnitude => ⟨negative, magnitude, marks.map Char.toLower⟩

/-- The types that a suffix leaves open, each with the magnitudes below its bound; a negative
literal has signed types only. -/
def Integer.types (negative : Bool) (suffix : List Char) : List (Nat × String) :=
  let int32 := (if negative then 2147483649 else 2147483648, Known.int32)
  let int64 := (if negative then 9223372036854775809 else 9223372036854775808, Known.int64)
  let uint32 := (4294967296, Known.uint32)
  let uint64 := (18446744073709551616, Known.uint64)
  match negative, suffix with
  | true, [] => [int32, int64]
  | true, ['l'] => [int64]
  | true, _ => []
  | false, [] => [int32, uint32, int64, uint64]
  | false, ['u'] => [uint32, uint64]
  | false, ['l'] => [int64, uint64]
  | false, ['u', 'l'] | false, ['l', 'u'] => [uint64]
  | false, _ => []

/-- The full name of the type of an integer literal; `none` if no type holds its value. -/
def integerType? (text : String) : Option String := do
  let literal ← Integer.ofText? text
  let (_, name) ← (Integer.types literal.negative literal.suffix).find? fun (bound, _) =>
    literal.magnitude < bound
  some name

/-! ## §2. Real numbers. -/

/-- A point at the front with the digits behind it, if there are any. -/
def pointPart : List Char → List Char
  | '.' :: cs => '.' :: cs.takeWhile Char.isDigit
  | _ => []

/-- Whether the characters are digits, possibly with a point before, between or behind them, and
with an exponent. -/
def isDecimal (cs : List Char) : Bool :=
  let whole := cs.takeWhile Char.isDigit
  let rest := cs.drop whole.length
  let point := pointPart rest
  match Scan.exponent (rest.drop point.length) with
  | .ok exponent =>
    (!whole.isEmpty || 1 < point.length) &&
      whole.length + point.length + exponent.length == cs.length
  | .error _ => false

/-- Whether the characters are read as a number of double precision: a sign or none, and then a
decimal number or the name of a special value. -/
def isDouble (cs : List Char) : Bool :=
  let unsigned := cs.drop (Scan.sign cs).length
  isDecimal unsigned || ["inf", "infinity", "nan"].contains (Text.lower (String.ofList unsigned))

/-- What stands before the suffix of a real literal, and the full name of the type that the suffix
names. -/
def splitReal (cs : List Char) : List Char × String :=
  match (cs.getLast?).map Char.toLower with
  | some 'f' => (cs.dropLast, Known.single)
  | some 'm' => (cs.dropLast, Known.decimal)
  | some 'd' => (cs.dropLast, Known.double)
  | _ => (cs, Known.double)

/-- The full name of the type of a real literal, given what is read as a number of double
precision; `none` if what stands before the suffix is not. -/
def realTypeBy? (accepts : List Char → Bool) (text : String) : Option String :=
  let cs := text.toList
  let (digits, name) := splitReal (if cs.head? == some '-' then cs.drop 1 else cs)
  if accepts digits then some name else none

/-- The full name of the type of a real literal; `none` if it is no number. -/
def realType? : String → Option String := realTypeBy? isDouble

end TypeAhead.Literal
