/-
  TypeAhead.Fragment.Grammar — THE GRAMMAR OF EXPRESSIONS, FOR LOCATING.

  The locator walks the whole grammar of expressions and builds nothing.  All it
  holds is a stack of offsets: entering an operand pushes the offset of its first
  token, and leaving it pops the offset again unless the text is over.  The
  operands still open when the walk stops, at the end of the text or at a fault,
  are on the stack, and the innermost is the trailing fragment.

  A rule is a name; `Rule.body` says what it does in terms of the rules it calls,
  and `Rule.run` gives the calls a budget.
-/
import TypeAhead.Walk
import TypeAhead.Settings.Basic

namespace TypeAhead.Fragment

open Walker

/-- A rule of the locator, which holds the stack of open operands, the innermost first. -/
abbrev Locator := Walker (List Nat)

/-! ## §1. Rules. -/

/-- The rules of the grammar, from the loosest binding to the tightest. -/
inductive Rule where
  /-- `a ? b : c` -/
  | conditional
  /-- `a ?? b` -/
  | coalescing
  /-- `a => (b)` -/
  | projection
  /-- `a || b` -/
  | disjunction
  /-- `a && b` -/
  | conjunction
  /-- `a in (b, c)`, `a not in b` -/
  | containment
  /-- `a & b`, `a | b` -/
  | bitwise
  /-- `a == b`, `a < b`, … -/
  | comparison
  /-- `a << b`, `a >> b` -/
  | shift
  /-- `a + b`, `a - b` -/
  | sum
  /-- `a * b`, `a / b`, `a % b` -/
  | product
  /-- `-a`, `!a`, `not a` -/
  | unary
  /-- An operand with everything that is attached to it. -/
  | operand
  /-- An operand by itself. -/
  | primary
  /-- A name, with a projection, a chain of names or arguments after it. -/
  | member
  /-- The rest of a chain of names, `A.B+C`. -/
  | nameChain
  /-- `(a, b)` after a name. -/
  | argumentList
  /-- `a, b` -/
  | arguments
  /-- One argument, possibly `out _`. -/
  | argument
  /-- `[a, b]` after an operand. -/
  | elementAccess
  /-- `new` with what it makes. -/
  | creation
  /-- `(a)` -/
  | parenthesized
  /-- A string literal, or several in a row. -/
  | text
  deriving Repr, DecidableEq, Inhabited

namespace Rule

/-! ## §2. The stack of open operands. -/

/-- Opens an operand at the current token. -/
def openOperand : Locator Unit := hold fun c starts => c.current.start :: starts

/-- Closes the innermost operand, unless the text is over. -/
def closeOperand : Locator Unit :=
  hold fun c starts => if c.current.isFinish then starts else starts.tail

/-! ## §3. Parts of bodies that call other rules. -/

section

variable (parsing : Parsing) (call : Rule → Locator Unit)

/-- Operands of `rule` with operators between them. -/
def chain (rule : Rule) (isOperator : Cursor → Bool) : Locator Unit := do
  call rule
  repeatWhile isOperator do
    advance
    call rule

/-- Whether the walk stands on `in` or a negation of it. -/
def startsContainment (c : Cursor) : Bool :=
  c.isOneOf ["in", "not_in", "not"] [.exclamation]

/-- The operator of a containment; a bare negation needs `in` after it. -/
def containmentOperator (operator : Token) : Locator Unit := do
  onlyIf (fun _ => operator.text == "not" || operator.kind == .exclamation) do
    advance
    if ← isWord "in" then pure () else failAt operator.start (.expected "in")
  advance

/-- One element of a list in parentheses, with what stands before it. -/
def listElement (operator : Token) : Locator Unit := do
  advance
  call .unary
  if ← look fun c => c.isKind .finish then failAt operator.start .closeParenOrCommaExpected
  else pure ()

/-- What follows the left operand of a containment: a list in parentheses, of which the
elements are unary, or one operand. -/
def container : Locator Unit := do
  let operator ← current
  containmentOperator operator
  match ← kind with
  | .openParen =>
    repeatWhile (fun c => !c.isKind .closeParen) (listElement call operator)
    advance
  | .identifier => call .operand
  | _ => failAt operator.start .openParenOrIdentifierExpected

/-- A member or an element of an operand.  Null propagation is refused. -/
def attachment : Locator Unit := do
  match ← kind with
  | .dot =>
    advance
    call .member
  | .propagate => refuse
  | _ => call .elementAccess

/-- Whether something is attached to an operand. -/
def isAttached (c : Cursor) : Bool := c.isAny [.dot, .propagate, .openBracket]

/-- What is attached to an operand. -/
def attached : Locator Unit := repeatWhile isAttached (attachment call)

/-- What a conditional does after its first operand. -/
def choice : Locator Unit := onlyIf (fun c => c.isKind .question) do
  advance
  call conditional
  expect .colon .colonExpected
  call conditional

/-- What a coalescing does after its first operand. -/
def fallback : Locator Unit := onlyIf (fun c => c.isKind .coalesce) do
  advance
  call conditional

/-- What a projection does after its first operand. -/
def arrow : Locator Unit := onlyIf (fun c => c.isKind .arrow) do
  advance
  onlyIf (fun c => c.isAny [.identifier, .openParen]) (call conditional)
  require .openParen .openParenExpected

/-- Whether the walk stands on an operator of one operand. -/
def isSign (c : Cursor) : Bool := c.isAny [.minus, .exclamation] || c.isWord "not"

/-- What follows an operator of one operand; a minus becomes part of the number after it. -/
def operated (operator : Token) : Locator Unit := do
  let literal ← current
  if operator.kind = .minus && literal.kind.isNumber then
    replace (literal.negated operator)
    call operand
  else call unary

/-- Whether the walk stands on what joins the names of a chain. -/
def isJoint (c : Cursor) : Bool := c.isAny [.dot, .plus]

/-- A name in a chain, after what joins it; it may be missing. -/
def linkedName : Locator Unit := onlyIf (fun c => c.isKind .identifier) advance

/-- What a member does after its name. -/
def afterName : Locator Unit := do
  if ← look fun c => c.isKind .arrow then
    advance
    call conditional
  else
    onlyIf isJoint (call nameChain)
    onlyIf (fun c => c.isKind .openParen) (call argumentList)

/-- A dot or a plus and the name after it. -/
def createdTypePart : Locator Unit := do
  advance
  expect .identifier .identifierExpected

/-- The name of the type after `new`, and the bracket that has to follow it. -/
def createdType : Locator Unit := do
  advance
  repeatWhile isJoint createdTypePart
  demand (fun c => c.isAny [.openParen, .openBracket, .openCurly]) .openParenExpected

/-- `[]` and the curly bracket after it; says whether it was there. -/
def arrayMark : Locator Bool := do
  if ← look fun c => c.isKind .openBracket then
    advance
    expect .closeBracket .closeBracketExpected
    require .openCurly .openCurlyExpected
    pure true
  else pure false

/-- Goes past a comma and says whether there was one. -/
def comma : Locator (Bool × Unit) := do
  if ← look fun c => c.isKind .comma then
    advance
    pure (true, ())
  else pure (false, ())

/-- A member of what `new` makes, with an optional alias unless it is an array. -/
def createdMember (isArray : Bool) : Locator Unit := do
  call .conditional
  onlyIf (fun c => !isArray && c.isWord "as") do
    advance
    let _ ← aliasName parsing.dottedAliases

/-- The members of what `new` makes. -/
def createdMembers (isArray : Bool) : Locator Unit :=
  repeatStep (fun _ => do
    if ← look fun c => c.isAny [.closeParen, .closeCurly] then pure (false, ())
    else
      createdMember parsing call isArray
      comma) ()

/-- Reads on over the token after a literal, and over one more if that is a question mark. -/
def lookAhead : Locator Unit := do
  let ahead ← ofExcept (← cursor).next
  if ahead.isKind .question then
    let _ ← ofExcept ahead.next
  else pure ()

/-- One more literal in a row. -/
def literalStep (joined : String) : Locator (Bool × String) := do
  let token ← current
  if token.kind = .stringLiteral then
    advance
    pure (true, joined ++ token.text)
  else pure (false, joined)

/-- The literals in a row from the current token on, put after `first`. -/
def adjacentLiterals (first : String) : Locator String := do
  advance
  repeatStep literalStep first

/-- What a literal stands for, which starts with the current token. -/
def literalValue (literal : String) : Locator String := do
  ofExcept (Literal.value parsing.dialect (← position) literal)

/-- What follows the look ahead of a literal of the given wording.  One in single quotes stands alone
and has one character; others are joined with those that follow. -/
def literalRest (wording : String) : Locator Unit := do
  let value ← literalValue parsing wording
  if wording.toList.head? = some '\'' then
    if value.length > 1 then fail .notOneCharacter else advance
  else
    let joined ← adjacentLiterals wording
    let _ ← literalValue parsing joined

/-- A string literal.  What is wrong with several in a row is reported where they end. -/
def literal : Locator Unit := do
  lookAhead
  literalRest parsing (← current).text

/-! ## §4. Bodies. -/

/-- What each rule does, given how it calls the others. -/
def body : Rule → Locator Unit
  | conditional => nested do
    call coalescing
    choice call
  | coalescing => do
    call projection
    fallback call
  | projection => do
    call disjunction
    arrow call
  | disjunction => chain call conjunction fun c => c.isKind .doubleBar
  | conjunction => chain call containment fun c => c.isKind .doubleAmpersand
  | containment => do
    call bitwise
    repeatWhile startsContainment (container call)
  | bitwise => chain call comparison fun c => c.isAny [.ampersand, .bar]
  | comparison => chain call shift fun c => c.current.kind.isComparison
  | shift => chain call sum fun c => c.isAny [.shiftLeft, .shiftRight]
  | sum => chain call product fun c => c.isAny [.plus, .minus]
  | product => chain call unary fun c => c.isAny [.asterisk, .slash, .percent] || c.isWord "mod"
  | unary => nested do
    if ← look isSign then
      let operator ← current
      advance
      operated call operator
    else call operand
  | operand => do
    openOperand
    call primary
    attached call
    closeOperand
  | primary => do
    match ← kind with
    | .identifier => if ← isWord "new" then call creation else call member
    | .stringLiteral => call text
    | .integerLiteral | .realLiteral => advance
    | .openParen => call parenthesized
    | _ => fail .expressionExpected
  | member => do
    require .identifier .identifierExpected
    edit fun c => c.reword (plainName c.current.text)
    advance
    afterName call
  | nameChain => do
    repeatWhile isJoint do
      advance
      linkedName
    onlyIf (fun c => c.isKind .identifier) (call member)
  | argumentList => do
    expect .openParen .openParenExpected
    onlyIf (fun c => !c.isKind .closeParen) (call arguments)
    expect .closeParen .closeParenOrCommaExpected
  | arguments => chain call argument fun c => c.isKind .comma
  | argument => do
    if ← discardedOut then pure () else call conditional
  | elementAccess => do
    expect .openBracket .openParenExpected
    call arguments
    expect .closeBracket .closeBracketOrCommaExpected
  | creation => do
    advance
    demand (fun c => c.isAny [.openParen, .openCurly, .openBracket, .identifier])
      .openParenOrIdentifierExpected
    onlyIf (fun c => c.isKind .identifier) createdType
    let isArray ← arrayMark
    advance
    createdMembers parsing call isArray
    demand (fun c => c.isAny [.closeParen, .closeCurly]) .closeParenOrCommaExpected
    advance
  | parenthesized => do
    expect .openParen .openParenExpected
    call conditional
    expect .closeParen .closeParenOrOperatorExpected
  | text => literal parsing

end

/-! ## §5. Running. -/

/-- Runs a rule with a budget for the calls that may be under way at once. -/
def run (parsing : Parsing) : Nat → Rule → Locator Unit
  | 0, _ => fail .tooDeep
  | budget + 1, rule => body parsing (run parsing budget) rule

/-- Calls that may be under way at once in a text of `size` bytes.  Between two nested rules
each of the other rules is under way at most once, save for chains of names, which take two
calls for each name of the text. -/
def budget (size : Nat) : Nat := 32 * (Limits.nesting + 1) + 2 * (size + 1)

end Rule

end TypeAhead.Fragment
