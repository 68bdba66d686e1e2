/-
  TypeAhead.Typing.Grammar — THE GRAMMAR OF EXPRESSIONS, FOR TYPING.

  Typing walks the same grammar as the locator of fragments, and every rule
  returns the operand that it read.  Nothing is evaluated and no tree is built.
  What the walk holds are the scopes that the bodies of sequence operators open:
  in each of them `it` is an element of the sequence.

  The rules from conditionals down to operands call each other through `call`;
  the parts of an operand are functions that call rules only for what stands in
  brackets, so that every cycle passes through a nested rule.
-/
import TypeAhead.Literal.Number
import TypeAhead.Settings.Basic
import TypeAhead.Typing.Operation
import TypeAhead.Typing.Sequence
import TypeAhead.Walk

namespace TypeAhead.Typing

open Walker

/-! ## §1. Scopes. -/

/-- A scope that the body of a sequence operator opens. -/
structure Scope where
  /-- The type of `it`. -/
  it : TypeDef
  /-- The name that the body gives to `it`. -/
  parameter : Option String
  deriving Repr, Inhabited

/-- What an expression is typed in. -/
structure Setting where
  registry : Registry
  parsing : Parsing
  /-- The type of `it` outside of all scopes. -/
  context : TypeDef
  deriving Repr, Inhabited

/-- A rule of typing, which holds the open scopes, the innermost first. -/
abbrev Typer := Walker (List Scope)

/-- The open scopes. -/
def scopes : Typer (List Scope) := move fun w => .ok w.held w

/-- The type of `it` where the given scopes are open. -/
def Setting.it (s : Setting) : List Scope → TypeDef
  | [] => s.context
  | scope :: _ => scope.it

/-- Runs a rule in one more scope, which is closed however the rule ends. -/
def inScope {α : Type} (scope : Scope) (rule : Typer α) : Typer α :=
  between (fun w => { w with held := scope :: w.held }) (fun w => { w with held := w.held.tail })
    rule

/-- The rules of the grammar, from the loosest binding to the tightest. -/
inductive Rule where
  /-- `a ? b : c` -/
  | conditional
  /-- `a ?? b` -/
  | coalescing
  /-- An operand of `??`; a projection has no meaning there. -/
  | projection
  /-- `a || b` -/
  | disjunction
  /-- `a && b` -/
  | conjunction
  /-- `a in (b, c)`, `a not in b` -/
  | containment
  /-- `a & b`, `a | b` -/
  | bitwise
  /-- `a == b`, `a < b`, … -/
  | comparison
  /-- `a << b`, `a >> b` -/
  | shift
  /-- `a + b`, `a - b` -/
  | sum
  /-- `a * b`, `a / b`, `a % b` -/
  | product
  /-- `-a`, `!a`, `not a` -/
  | unary
  /-- An operand with everything that is attached to it. -/
  | operand
  deriving Repr, DecidableEq, Inhabited

namespace Rule

variable (s : Setting) (call : Rule → Typer Operand)

/-! ## §2. Arguments. -/

/-- One argument, possibly `out _`. -/
def argument : Typer Operand := do
  if ← discardedOut then
    pure { Operand.predefined Known.object with form := .discard }
  else call conditional

/-- Arguments with commas between them, at least one. -/
def arguments : Typer (List Operand) := do
  let first ← argument call
  repeatStep (fun read => do
    if (← kind) = .comma then
      advance
      let next ← argument call
      pure (true, read ++ [next])
    else pure (false, read)) [first]

/-- Arguments in parentheses, possibly none. -/
def argumentList : Typer (List Operand) := do
  expect .openParen .openParenExpected
  let read ← if (← kind) = .closeParen then pure [] else arguments call
  expect .closeParen .closeParenOrCommaExpected
  pure read

/-! ## §3. Members. -/

/-- The name before the body of a sequence operator, `x =>`, if there is one. -/
def bodyParameter : Typer (Option String) := do
  let c ← cursor
  if c.current.kind = .identifier then
    let next ← ofExcept c.peek
    if next.kind = .arrow then
      advance
      advance
      pure (some (plainName c.current.text))
    else pure none
  else pure none

/-- The body of a sequence operator, possibly with a name for the element before it.  The
outermost scope, that of the context, counts as one. -/
def sequenceBody (element : TypeDef) : Typer Operand := do
  if Limits.scopes ≤ (← scopes).length + 1 then fail .tooDeep
  let parameter ← bodyParameter
  inScope ⟨element, parameter⟩ (call conditional)

/-- The call of a sequence operator, of which the name has been read. -/
def sequenceCall (o : SequenceOperator) (element : TypeDef) (name : String) : Typer Operand := do
  let position ← position
  expect .openParen .openParenExpected
  let read ← if (← kind) = .closeParen then pure []
    else if o.takesBody then List.singleton <$> sequenceBody call element
    else arguments call
  expect .closeParen .closeParenOrCommaExpected
  ofExcept (o.result s.registry name element position read)

/-- A type that a member or an indexer mentions. -/
def mentioned (name : String) (position : Nat) : Typer TypeDef :=
  match s.registry.get? name with
  | some t => pure t
  | none => failAt position (.typeNotFound name)

/-- The call of a method, of which the name has been read. -/
def methodCall (owner : TypeDef) (methods : List Method) (name : String) (position : Nat) :
    Typer Operand := do
  let read ← argumentList call
  match s.registry.selectOverload (methods.map fun m => (m.parameters, m)) read with
  | some m => .value <$> mentioned s m.returns position
  | none => failAt position (.noApplicableMethod name owner.name)

/-- The sequence operator that a name is for a type with elements. -/
def sequenceOperator? (owner : TypeDef) (name : String) :
    Option (TypeDef × SequenceOperator) :=
  match s.registry.elementType? owner, SequenceOperator.ofName? name s.parsing.ignoreCase with
  | some element, some o => some (element, o)
  | _, _ => none

/-- A member of a type, by its name: with parentheses a method or a sequence operator, without
them a field or a property. -/
def memberAccess (owner : TypeDef) (binding : Binding) : Typer Operand := do
  require .identifier .identifierExpected
  let token ← current
  let name := plainName token.text
  advance
  if (← kind) = .openParen then
    let methods := s.registry.findMethods owner name binding s.parsing.ignoreCase
    let operator := if methods.isEmpty && binding = .ofInstance
      then sequenceOperator? s owner name else none
    match operator with
    | some (element, o) => sequenceCall s call o element name
    | none => methodCall s call owner methods name token.start
  else
    match s.registry.findMember? owner name binding s.parsing.ignoreCase with
    | some m =>
      let type ← mentioned s m.type token.start
      pure { type, name := some m.name }
    | none => failAt token.start (.unknownMember name owner.name)

/-- An element of an operand, by its index. -/
def elementAccess (owner : TypeDef) : Typer Operand := do
  let position ← position
  expect .openBracket .openParenExpected
  let read ← arguments call
  expect .closeBracket .closeBracketOrCommaExpected
  let indexers := s.registry.findIndexers owner
  match s.registry.selectOverload (indexers.map fun i => (i.parameters, i)) read with
  | some i => .value <$> mentioned s i.type position
  | none => failAt position (.noApplicableIndexer owner.name)

/-! ## §4. Names. -/

/-- Looks ahead for the accessible type whose full name starts with the words read so far, and
returns it with the place of its last word. -/
def qualifiedType? (qualified : String) (c : Cursor) :
    Nat → Except Fault (Option (TypeDef × Cursor))
  | 0 => .error (c.fault .tooDeep)
  | budget + 1 =>
    match c.next with
    | .error fault => .error fault
    | .ok dot =>
      if dot.current.kind ≠ .dot && dot.current.kind ≠ .plus then .ok none
      else
        match dot.next with
        | .error fault => .error fault
        | .ok word =>
          if word.current.kind ≠ .identifier then .ok none
          else
            let qualified := qualified ++ "." ++ plainName word.current.text
            match s.registry.findAccessible? qualified (some s.context) with
            | some t => .ok (some (t, word))
            | none =>
              if s.registry.isNamespace qualified (some s.context) then
                qualifiedType? qualified word budget
              else .ok none

/-- The type that one word names: by a keyword, or as an accessible type. -/
def wordType? (name : String) : Option TypeDef :=
  match (Known.ofKeyword? name).bind s.registry.get? with
  | some t => some t
  | none => s.registry.findAccessible? name (some s.context)

/-- Goes past the name of a type, if the walk stands on one. -/
def typeName : Typer (Option TypeDef) := do
  let c ← cursor
  let name := plainName c.current.text
  match wordType? s name with
  | some t =>
    advance
    pure (some t)
  | none =>
    if s.registry.isNamespace name (some s.context) then
      match ← ofExcept (qualifiedType? s name c (c.size + 2)) with
      | some (t, last) =>
        jump last
        advance
        pure (some t)
      | none => pure none
    else pure none

/-- What follows the name of a type: a conversion, or a static member. -/
def typeAccess (t : TypeDef) (position : Nat) : Typer Operand := do
  match ← kind with
  | .openParen =>
    let read ← argumentList call
    ofExcept (s.registry.construct t read position)
  | .dot =>
    advance
    memberAccess s call t .ofType
  | _ => fail .dotOrOpenParenExpected

/-- Whether the word on which the walk stands can be a member of a type. -/
def hasMember (t : TypeDef) (name : String) : Typer Bool := do
  let ignoreCase := s.parsing.ignoreCase
  if (s.registry.findMember? t name .ofInstance ignoreCase).isSome ||
      !(s.registry.findMethods t name .ofInstance ignoreCase).isEmpty then pure true
  else
    let next ← ofExcept (← cursor).peek
    pure (next.kind == .openParen && (sequenceOperator? s t name).isSome)

/-- The type or the registered type of a name, whether it is accessible or not. -/
def registered? (name : String) : Option TypeDef :=
  match s.registry.get? name with
  | some t => some t
  | none => s.registry.findAccessible? name (some s.context)

/-! ## §5. Keywords. -/

/-- `iif(test, a, b)` -/
def choice : Typer Operand := do
  let position ← position
  advance
  match ← argumentList call with
  | [test, a, b] =>
    ofExcept (SequenceOperator.requireBoolean test position)
    ofExcept (s.registry.unify a b position)
  | _ => failAt position (.argumentCount "iif" 3)

/-- `np(a)` and `np(a, b)`, a value that may be null and another for that case. -/
def nullPropagation : Typer Operand := do
  let position ← position
  advance
  match ← argumentList call with
  | [a] => pure (.value a.type)
  | [a, b] => ofExcept (s.registry.unify a b position)
  | _ => failAt position (.argumentCount "np" 1)

/-- The type of `new (…)`, which is given by its members. -/
def anonymous (members : List (String × Operand)) : TypeDef :=
  let shape := members.map fun (name, a) => name ++ ":" ++ a.typeName
  { name := "<>f__AnonymousType(" ++ String.intercalate "," shape ++ ")",
    properties := members.map fun (name, a) => ⟨name, a.typeName, false⟩ }

/-- The name of the type after `new`, with dots between its words, and the bracket that has to
follow it. -/
def createdName : Typer String := do
  let first := plainName (← current).text
  advance
  let name ← repeatStep (fun name => do
    if ← isAny [.dot, .plus] then
      advance
      require .identifier .identifierExpected
      let word := plainName (← current).text
      advance
      pure (true, name ++ "." ++ word)
    else pure (false, name)) first
  unless ← isAny [.openParen, .openBracket, .openCurly] do fail .openParenExpected
  pure name

/-- `[]` and the curly bracket after it; says whether it was there. -/
def arrayMark : Typer Bool := do
  if (← kind) = .openBracket then
    advance
    expect .closeBracket .closeBracketExpected
    require .openCurly .openCurlyExpected
    pure true
  else pure false

/-- What stands between the brackets after `new`: operands, with names unless they are the
elements of an array. -/
def createdMembers (isArray : Bool) : Typer (List (String × Operand)) := do
  let members ← repeatStep (fun members => do
    if ← isAny [.closeParen, .closeCurly] then pure (false, members)
    else
      let position ← position
      let a ← call conditional
      let name ← if isArray then pure (some "")
        else if ← isWord "as" then do
          advance
          some <$> aliasName s.parsing.dottedAliases
        else pure a.name
      let members ← match name with
        | some name => pure (members ++ [(name, a)])
        | none => failAt position .missingAlias
      if (← kind) = .comma then
        advance
        pure (true, members)
      else pure (false, members)) []
  unless ← isAny [.closeParen, .closeCurly] do fail .closeParenOrCommaExpected
  advance
  pure members

/-- `new {…}`, `new T {…}`, `new […] {…}` and `new T[] {…}`, from the bracket on. -/
def createdBody (target : Option TypeDef) (position : Nat) : Typer Operand := do
  let isArray ← arrayMark
  advance
  let members ← createdMembers s call isArray
  if isArray then
    match target with
    | some t => pure (SequenceOperator.sequence t)
    | none =>
      match ← ofExcept (s.registry.unifyAll position none (members.map Prod.snd)) with
      | some a => pure (SequenceOperator.sequence a.type)
      | none => pure (SequenceOperator.sequence (Operand.predefined Known.object).type)
  else pure (.value (target.getD (anonymous members)))

/-- `new` with what it makes. -/
def creation : Typer Operand := do
  let position ← position
  advance
  unless ← isAny [.openParen, .openCurly, .openBracket, .identifier] do
    fail .openParenOrIdentifierExpected
  if (← kind) = .identifier then
    let start ← Walker.position
    let name ← createdName
    match registered? s name with
    | none => failAt start (.typeNotFound name)
    | some t =>
      if (← kind) = .openParen then
        let read ← argumentList call
        ofExcept (s.registry.construct t read start)
      else createdBody s call (some t) position
  else createdBody s call none position

/-! ## §6. Words and literals. -/

/-- A word that is neither a keyword nor a parameter: a type, or a member of `it`. -/
def name (it : TypeDef) : Typer Operand := do
  let token ← current
  match ← typeName s with
  | some t => typeAccess s call t token.start
  | none =>
    let name := plainName token.text
    unless ← hasMember s it name do fail (.unknownIdentifier name)
    memberAccess s call it .ofInstance

/-- A word at the start of an operand. -/
def word : Typer Operand := do
  let scopes ← scopes
  let word := plainName (← current).text
  match Text.lower word with
  | "it" =>
    advance
    pure (.value (s.it scopes))
  | "parent" | "outerit" =>
    match scopes with
    | [] => fail (.noParent word)
    | _ :: outer =>
      advance
      pure (.value (s.it outer))
  | "true" | "false" =>
    advance
    pure (.predefined Known.boolean)
  | "null" =>
    advance
    pure { Operand.predefined Known.object with form := .null }
  | "iif" => choice s call
  | "np" => nullPropagation s call
  | "new" => creation s call
  | _ =>
    match scopes.find? fun scope => scope.parameter == some word with
    | some scope =>
      advance
      pure { type := scope.it, name := some word }
    | none => name s call (s.it scopes)

/-- The literals in a row from the current token on, put together. -/
def adjacentLiterals (first : String) : Typer String := do
  advance
  repeatStep (fun joined => do
    let token ← current
    if token.kind = .stringLiteral then
      advance
      pure (true, joined ++ token.text)
    else pure (false, joined)) first

/-- A string literal: one character in single quotes, a conversion to the type that it names, or
a text, possibly of several literals in a row. -/
def text : Typer Operand := do
  let c ← cursor
  let token := c.current
  let dialect := s.parsing.dialect
  let ahead ← ofExcept c.next
  let ahead ← if ahead.current.kind = .question then ofExcept ahead.next else pure ahead
  let value ← ofExcept (Literal.value dialect token.start token.text)
  if token.text.toList.head? = some '\'' then
    if value.length ≠ 1 then fail .notOneCharacter
    advance
    pure (.predefined Known.char)
  else if ahead.current.kind = .openParen then
    jump ahead
    let read ← argumentList call
    match registered? s value with
    | some t => ofExcept (s.registry.construct t read token.start)
    | none => failAt token.start (.typeNotFound value)
  else
    let joined ← adjacentLiterals token.text
    let _ ← ofExcept (Literal.value dialect token.start joined)
    pure (.predefined Known.string)

/-- A number. -/
def number (typeOf? : String → Option String) (form : Form) (invalid : String → Cause) :
    Typer Operand := do
  let token ← current
  match typeOf? token.text with
  | none => fail (invalid token.text)
  | some name =>
    advance
    pure { Operand.predefined name with form }

/-- An operand by itself. -/
def primary : Typer Operand := do
  match ← kind with
  | .identifier => word s call
  | .stringLiteral => text s call
  | .integerLiteral => number Literal.integerType? .integer .invalidInteger
  | .realLiteral => number Literal.realType? .plain .invalidReal
  | .openParen =>
    advance
    let inner ← call conditional
    expect .closeParen .closeParenOrOperatorExpected
    pure inner
  | _ => fail .expressionExpected

/-- What is attached to an operand: members and elements.  Null propagation is refused. -/
def attached : Operand → Typer Operand :=
  repeatStep fun a => do
    match ← kind with
    | .dot =>
      advance
      let member ← memberAccess s call a.type .ofInstance
      pure (true, member)
    | .propagate => refuse
    | .openBracket =>
      let element ← elementAccess s call a.type
      pure (true, element)
    | _ => pure (false, a)

/-! ## §7. Operators. -/

/-- Operands of `rule` with operators between them, from the left to the right. -/
def chain (rule : Rule) (isOperator : Cursor → Bool) : Typer Operand := do
  let first ← call rule
  repeatStep (fun left => do
    if isOperator (← cursor) then
      let token ← current
      advance
      let right ← call rule
      let operator := (Operator.ofToken? token.kind).getD .modulo
      let both ← ofExcept (s.registry.operate operator token left right)
      pure (true, both)
    else pure (false, left)) first

/-- The list of a containment, from its opening parenthesis on. -/
def containerList (operator : Token) (left : Operand) : Typer Unit := do
  repeatStep (fun _ => do
    advance
    let element ← call unary
    ofExcept (s.registry.contained operator left element)
    match ← kind with
    | .comma => pure (true, ())
    | .closeParen => pure (false, ())
    | .finish => failAt operator.start .closeParenOrCommaExpected
    | _ => fail .closeParenOrCommaExpected) ()
  advance

/-- What follows the left operand of a containment: a list in parentheses, of which the
elements are unary, or a sequence. -/
def container (left : Operand) : Typer Unit := do
  let operator ← current
  if operator.text = "not" || operator.kind = .exclamation then
    advance
    unless ← isWord "in" do failAt operator.start (.expected "in")
  advance
  match ← kind with
  | .openParen => containerList s call operator left
  | .identifier =>
    let sequence ← call operand
    match s.registry.elementType? sequence.type with
    | none => failAt operator.start (.incompatibleOperand operator.text sequence.type.name)
    | some element => ofExcept (s.registry.contained operator left (.value element))
  | _ => failAt operator.start .openParenOrIdentifierExpected

/-- What each rule does, given how it calls the others. -/
def body : Rule → Typer Operand
  | conditional => nested do
    let position ← position
    let test ← call coalescing
    if (← kind) = .question then
      ofExcept (SequenceOperator.requireBoolean test position)
      let question ← Walker.position
      advance
      let a ← call conditional
      expect .colon .colonExpected
      let b ← call conditional
      ofExcept (s.registry.unify a b question)
    else pure test
  | coalescing => do
    let left ← call projection
    if (← kind) = .coalesce then
      let operator ← current
      advance
      let right ← call conditional
      if left.isNull then pure (.value right.type)
      else if s.registry.converts right left.type then pure (.value left.type)
      else if s.registry.converts left right.type then pure (.value right.type)
      else ofExcept (.error (operator.incompatible left right))
    else pure left
  | projection => do
    let left ← call disjunction
    if (← kind) = .arrow then fail .leftover
    pure left
  | disjunction => chain s call conjunction fun c => c.current.kind == .doubleBar
  | conjunction => chain s call containment fun c => c.current.kind == .doubleAmpersand
  | containment => do
    let first ← call bitwise
    repeatStep (fun left => do
      if (← cursor).isOneOf ["in", "not_in", "not"] [.exclamation] then
        container s call left
        pure (true, .predefined Known.boolean)
      else pure (false, left)) first
  | bitwise => chain s call comparison fun c => [.ampersand, .bar].contains c.current.kind
  | comparison => chain s call shift fun c => c.current.kind.isComparison
  | shift => chain s call sum fun c => [.shiftLeft, .shiftRight].contains c.current.kind
  | sum => chain s call product fun c => [.plus, .minus].contains c.current.kind
  | product => chain s call unary fun c =>
      [.asterisk, .slash, .percent].contains c.current.kind || c.isWord "mod"
  | unary => nested do
    if (← isAny [.minus, .exclamation]) || (← isWord "not") then
      let operator ← current
      advance
      let literal ← current
      if operator.kind = .minus && literal.kind.isNumber then
        replace (literal.negated operator)
        call operand
      else
        let a ← call unary
        ofExcept (Registry.operateUnary operator a)
    else call operand
  | operand => do
    let first ← primary s call
    attached s call first

/-! ## §8. Running. -/

/-- Runs a rule with a budget for the calls that may be under way at once. -/
def run (s : Setting) : Nat → Rule → Typer Operand
  | 0, _ => fail .tooDeep
  | budget + 1, rule => body s (run s budget) rule

/-- Calls that may be under way at once: between two nested rules, each rule is under way at
most once. -/
def budget : Nat := 16 * (Limits.nesting + 1)

end Rule

end TypeAhead.Typing
