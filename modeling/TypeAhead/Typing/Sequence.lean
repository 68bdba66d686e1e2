/-
  TypeAhead.Typing.Sequence — OPERATORS OF SEQUENCES.

  A type with elements has operators beside its methods: they ask about the
  elements, pick one, or make another sequence.  Most take a body that is typed
  with `it` bound to an element; three take plain arguments.
-/
import TypeAhead.Typing.Operand

namespace TypeAhead

/-- The operators of sequences. -/
inductive SequenceOperator where
  | any
  | all
  | count
  | longCount
  /-- The elements for which the body holds. -/
  | filter
  /-- The values of the body. -/
  | select
  | first
  | firstOrDefault
  | last
  | lastOrDefault
  | single
  | singleOrDefault
  | sum
  | average
  | min
  | max
  | contains
  | orderBy
  | orderByDescending
  | skip
  | take
  | distinct
  | reverse
  | toArray
  | toList
  deriving Repr, DecidableEq, Inhabited

namespace SequenceOperator

/-- The operators with their names. -/
def names : List (String × SequenceOperator) :=
  [("Any", any), ("All", all), ("Count", count), ("LongCount", longCount), ("Where", filter),
    ("Select", select), ("First", first), ("FirstOrDefault", firstOrDefault), ("Last", last),
    ("LastOrDefault", lastOrDefault), ("Single", single), ("SingleOrDefault", singleOrDefault),
    ("Sum", sum), ("Average", average), ("Min", min), ("Max", max), ("Contains", contains),
    ("OrderBy", orderBy), ("OrderByDescending", orderByDescending), ("Skip", skip),
    ("Take", take), ("Distinct", distinct), ("Reverse", reverse), ("ToArray", toArray),
    ("ToList", toList)]

/-- The operator of a name. -/
def ofName? (name : String) (ignoreCase : Bool) : Option SequenceOperator :=
  (names.find? fun entry => Text.sameName ignoreCase entry.1 name).map Prod.snd

/-- Whether the argument is a body, typed with `it` bound to an element. -/
def takesBody (o : SequenceOperator) : Bool := o != contains && o != skip && o != take

/-- The sequence of elements of a type. -/
def sequence (element : TypeDef) : Operand := .value element.array

/-- The sum or the average of values, which have to be numbers. -/
def total (isAverage : Bool) (a : Operand) (position : Nat) : Except Fault Operand :=
  let name := a.typeName
  if !Known.isArithmetic name || name == Known.char then
    .error ⟨.incompatibleOperand (if isAverage then "Average" else "Sum") a.type.name, position⟩
  else if isAverage && name != Known.decimal && name != Known.single then
    .ok (.predefined Known.double)
  else .ok (.value a.type)

/-- Faults unless the operand is a truth value. -/
def requireBoolean (a : Operand) (position : Nat) : Except Fault Unit :=
  if a.isBoolean then .ok () else .error ⟨.notOfType "Boolean", position⟩

/-- Faults unless the operand converts to the type. -/
def requireConversion (r : Registry) (a : Operand) (target : TypeDef) (position : Nat) :
    Except Fault Unit :=
  if r.converts a target then .ok () else .error ⟨.notOfType target.name, position⟩

/-- How many arguments an operator wants, where it did not get them. -/
def wanted : SequenceOperator → Nat
  | distinct | reverse | toArray | toList => 0
  | _ => 1

/-- What an operator, written as `name`, makes of a sequence and its arguments. -/
def result (r : Registry) (o : SequenceOperator) (name : String) (element : TypeDef)
    (position : Nat) (arguments : List Operand) : Except Fault Operand :=
  match o, arguments with
  | any, [] => .ok (.predefined Known.boolean)
  | any, [a] | all, [a] => (requireBoolean a position).map fun _ => .predefined Known.boolean
  | count, [] => .ok (.predefined Known.int32)
  | longCount, [] => .ok (.predefined Known.int64)
  | count, [a] => (requireBoolean a position).map fun _ => .predefined Known.int32
  | longCount, [a] => (requireBoolean a position).map fun _ => .predefined Known.int64
  | filter, [a] => (requireBoolean a position).map fun _ => sequence element
  | select, [a] => .ok (sequence a.type)
  | first, [] | firstOrDefault, [] | last, [] | lastOrDefault, [] | single, []
  | singleOrDefault, [] => .ok (.value element)
  | first, [a] | firstOrDefault, [a] | last, [a] | lastOrDefault, [a] | single, [a]
  | singleOrDefault, [a] => (requireBoolean a position).map fun _ => .value element
  | min, [] | max, [] => .ok (.value element)
  | min, [a] | max, [a] => .ok (.value a.type)
  | sum, [] => total false (.value element) position
  | average, [] => total true (.value element) position
  | sum, [a] => total false a position
  | average, [a] => total true a position
  | contains, [a] =>
    (requireConversion r a element position).map fun _ => .predefined Known.boolean
  | orderBy, [_] | orderByDescending, [_] => .ok (sequence element)
  | skip, [a] | take, [a] =>
    (requireConversion r a (Operand.predefined Known.int32).type position).map
      fun _ => sequence element
  | distinct, [] | reverse, [] | toArray, [] | toList, [] => .ok (sequence element)
  | o, _ => .error ⟨.argumentCount name o.wanted, position⟩

end SequenceOperator

end TypeAhead
