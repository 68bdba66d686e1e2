/-
  TypeAhead.Proofs.Typing.Parts — WHAT THE RULES OF TYPING ARE MADE OF.

  The grammar writes most of its rules in one piece.  Here each piece that is a thing of
  its own has a name, and the rule is put together again from its pieces.  Whatever is
  shown of all rules is then shown once of each piece, and not of each place where it
  stands.

      argumentStep, createdStep, …   what a loop does in a round
      inParentheses                  what is between parentheses, and what follows them
      nameStep, NamesFrom            the name of a type, word by word
      memberName, addMember          a member of what `new` makes
      pastQuestion, textRest         what follows a literal
      pastOperator, contained        what follows the left operand of a containment
-/
import TypeAhead.Typing.Grammar
import TypeAhead.Proofs.Walk.Contract

namespace TypeAhead.Typing.Rule

open Walker

variable {α β : Type}

section

variable (s : Setting) (call : Rule → Typer Operand)

/-! ## §1. Rounds.

The loops of the grammar, each with a name for what it does in a round. -/

/-- One argument more, after a comma. -/
def argumentStep (read : List Operand) : Typer (Bool × List Operand) := do
  if (← kind) = .comma then
    advance
    let next ← argument call
    pure (true, read ++ [next])
  else pure (false, read)

/-- Arguments are read in rounds, from the first one on. -/
theorem arguments_eq : arguments call = (do
    let first ← argument call
    repeatStep (argumentStep call) [first]) := rfl

/-- One joint and one word more of the name of the type after `new`. -/
def createdNameStep (name : String) : Typer (Bool × String) := do
  if ← isAny [.dot, .plus] then
    advance
    require .identifier .identifierExpected
    let word := plainName (← current).text
    advance
    pure (true, name ++ "." ++ word)
  else pure (false, name)

/-- The name of a created type is read in rounds. -/
theorem createdName_eq : createdName = (do
    let first := plainName (← current).text
    advance
    let name ← repeatStep createdNameStep first
    unless ← isAny [.openParen, .openBracket, .openCurly] do fail .openParenExpected
    pure name) := rfl

/-- What follows an operand between the brackets after `new`: an alias unless it is the element of an
array, and a comma if there is one more. -/
def createdMember (isArray : Bool) (members : List (String × Operand)) (position : Nat) (a : Operand) :
    Typer (Bool × List (String × Operand)) := do
  let name ← if isArray then pure (some "")
    else if ← isWord "as" then do
      advance
      some <$> aliasName s.parsing.dottedAliases
    else pure a.name
  let members ← match name with
    | some name => pure (members ++ [(name, a)])
    | none => failAt position .missingAlias
  if (← kind) = .comma then
    advance
    pure (true, members)
  else pure (false, members)

/-- A round over the members of what `new` makes. -/
def createdStep (isArray : Bool) (members : List (String × Operand)) :
    Typer (Bool × List (String × Operand)) := do
  if ← isAny [.closeParen, .closeCurly] then pure (false, members)
  else
    let position ← position
    let a ← call conditional
    createdMember s isArray members position a

/-- The members of what is made are read in rounds, up to either closing bracket. -/
theorem createdMembers_eq (isArray : Bool) : createdMembers s call isArray = (do
    let members ← repeatStep (createdStep s call isArray) []
    unless ← isAny [.closeParen, .closeCurly] do fail .closeParenOrCommaExpected
    advance
    pure members) := rfl

/-- One literal more in a row. -/
def literalStep (joined : String) : Typer (Bool × String) := do
  let token ← current
  if token.kind = .stringLiteral then
    advance
    pure (true, joined ++ token.text)
  else pure (false, joined)

/-- Literals in a row are read in rounds. -/
theorem adjacentLiterals_eq (first : String) : adjacentLiterals first = (do
    advance
    repeatStep literalStep first) := rfl

/-- One member or element more. -/
def attachedStep (a : Operand) : Typer (Bool × Operand) := do
  match ← kind with
  | .dot =>
    advance
    let member ← memberAccess s call a.type .ofInstance
    pure (true, member)
  | .propagate => refuse
  | .openBracket =>
    let element ← elementAccess s call a.type
    pure (true, element)
  | _ => pure (false, a)

/-- What is attached to an operand is read in rounds. -/
theorem attached_eq : attached s call = repeatStep (attachedStep s call) := rfl

/-- One operator more, and the operand after it. -/
def linkStep (rule : Rule) (isOperator : Cursor → Bool) (left : Operand) : Typer (Bool × Operand) := do
  if isOperator (← cursor) then
    let token ← current
    advance
    let right ← call rule
    let operator := (Operator.ofToken? token.kind).getD .modulo
    let both ← ofExcept (s.registry.operate operator token left right)
    pure (true, both)
  else pure (false, left)

/-- Operators of one level are read in rounds, from the first operand on. -/
theorem chain_eq (rule : Rule) (isOperator : Cursor → Bool) : chain s call rule isOperator = (do
    let first ← call rule
    repeatStep (linkStep s call rule isOperator) first) := rfl

/-- One element more of the list of a containment, with what stands before it. -/
def elementStep (operator : Token) (left : Operand) (_ : Unit) : Typer (Bool × Unit) := do
  advance
  let element ← call unary
  ofExcept (s.registry.contained operator left element)
  match ← kind with
  | .comma => pure (true, ())
  | .closeParen => pure (false, ())
  | .finish => failAt operator.start .closeParenOrCommaExpected
  | _ => fail .closeParenOrCommaExpected

/-- The elements of a list after `in` are read in rounds. -/
theorem containerList_eq (operator : Token) (left : Operand) : containerList s call operator left = (do
    repeatStep (elementStep s call operator left) ()
    advance) := rfl

/-- What follows an element of such a list: a comma, or the parenthesis that ends it. -/
def afterElement (operator : Token) (left element : Operand) : Typer (Bool × Unit) := do
  ofExcept (s.registry.contained operator left element)
  match ← kind with
  | .comma => pure (true, ())
  | .closeParen => pure (false, ())
  | .finish => failAt operator.start .closeParenOrCommaExpected
  | _ => fail .closeParenOrCommaExpected

/-- A round of that list is over with what follows the element. -/
theorem elementStep_eq (operator : Token) (left : Operand) (u : Unit) : elementStep s call operator left u = (do
    advance
    let element ← call unary
    afterElement s operator left element) := rfl

/-- A list goes on at a comma and ends at a parenthesis. -/
theorem kind_of_elementStep {operator : Token} {left : Operand} {next : Bool × Unit}
    {w v : Walk (List Scope)} (h : (elementStep s call operator left ()).run w = .ok next v) :
    v.cursor.current.kind = if next.1 then .comma else .closeParen := by
  rw [elementStep_eq] at h
  obtain ⟨_, _, -, h⟩ := eq_ok_of_bind h
  obtain ⟨_, _, -, h⟩ := eq_ok_of_bind h
  obtain ⟨_, _, -, h⟩ := eq_ok_of_bind h
  have h := eq_ok_of_lookThen h
  split at h <;> cases h <;> assumption

/-- One containment more. -/
def containmentStep (left : Operand) : Typer (Bool × Operand) := do
  if (← cursor).isOneOf ["in", "not_in", "not"] [.exclamation] then
    container s call left
    pure (true, .predefined Known.boolean)
  else pure (false, left)

/-- Any number of `in` is read in rounds, from the first operand on. -/
theorem body_containment_eq : body s call containment = (do
    let first ← call bitwise
    repeatStep (containmentStep s call) first) := rfl

/-! ## §2. Arguments. -/

/-- What is between parentheses, if anything is, and what is made of it after them. -/
def inParentheses (inner : Typer (List Operand)) (f : List Operand → Typer β) : Typer β := do
  expect .openParen .openParenExpected
  let read ← if (← kind) = .closeParen then pure [] else inner
  expect .closeParen .closeParenOrCommaExpected
  f read

/-- What an operator of sequences is called with: its body, or arguments. -/
def calledWith (o : SequenceOperator) (element : TypeDef) : Typer (List Operand) :=
  if o.takesBody then List.singleton <$> sequenceBody call element else arguments call

/-- A call of a sequence operator reads its arguments, and then its type is told from them. -/
theorem sequenceCall_eq (o : SequenceOperator) (element : TypeDef) (name : String) :
    sequenceCall s call o element name = (do
      let position ← position
      inParentheses (calledWith call o element) fun read =>
        ofExcept (o.result s.registry name element position read)) := by
  unfold sequenceCall calledWith
  cases o.takesBody <;> rfl

/-- What follows the bracket of an element. -/
def indexed (owner : TypeDef) (position : Nat) : Typer Operand := do
  let read ← arguments call
  expect .closeBracket .closeBracketOrCommaExpected
  let indexers := s.registry.findIndexers owner
  match s.registry.selectOverload (indexers.map fun i => (i.parameters, i)) read with
  | some i => .value <$> mentioned s i.type position
  | none => failAt position (.noApplicableIndexer owner.name)

/-! ## §3. Names of types. -/

/-- A joint and a word after the words read so far: the type that is found, or none, or the words of a
namespace in which to look on. -/
def nameStep (qualified : String) (c : Cursor) :
    Except Fault (Option (TypeDef × Cursor) ⊕ String × Cursor) :=
  match c.next with
  | .error fault => .error fault
  | .ok dot =>
    if dot.current.kind ≠ .dot && dot.current.kind ≠ .plus then .ok (.inl none)
    else
      match dot.next with
      | .error fault => .error fault
      | .ok word =>
        if word.current.kind ≠ .identifier then .ok (.inl none)
        else
          let qualified := qualified ++ "." ++ plainName word.current.text
          match s.registry.findAccessible? qualified (some s.context) with
          | some t => .ok (.inl (some (t, word)))
          | none =>
            if s.registry.isNamespace qualified (some s.context) then .ok (.inr (qualified, word))
            else .ok (.inl none)

theorem qualifiedType?_succ (qualified : String) (c : Cursor) (budget : Nat) :
    qualifiedType? s qualified c (budget + 1) =
      match nameStep s qualified c with
      | .error fault => .error fault
      | .ok (.inl found) => .ok found
      | .ok (.inr (qualified, word)) => qualifiedType? s qualified word budget := by
  rw [qualifiedType?, nameStep]
  -- The step and the recursion look at the same tokens, so the cases are theirs.
  cases c.next with
  | error fault => rfl
  | ok dot =>
    dsimp only
    by_cases hjoint : (dot.current.kind ≠ .dot && dot.current.kind ≠ .plus) = true
    · rw [if_pos hjoint, if_pos hjoint]
    · rw [if_neg hjoint, if_neg hjoint]
      cases dot.next with
      | error fault => rfl
      | ok word =>
        dsimp only
        by_cases hname : word.current.kind ≠ .identifier
        · rw [if_pos hname, if_pos hname]
        · rw [if_neg hname, if_neg hname]
          cases s.registry.findAccessible? (qualified ++ "." ++ plainName word.current.text) (some s.context) with
          | some t => rfl
          | none =>
            cases s.registry.isNamespace (qualified ++ "." ++ plainName word.current.text) (some s.context) <;> rfl

/-- What a word makes of the words before it. -/
def wordStep (qualified : String) (word : Cursor) : Option (TypeDef × Cursor) ⊕ String × Cursor :=
  if word.current.kind ≠ .identifier then .inl none
  else
    let qualified := qualified ++ "." ++ plainName word.current.text
    match s.registry.findAccessible? qualified (some s.context) with
    | some t => .inl (some (t, word))
    | none =>
      if s.registry.isNamespace qualified (some s.context) then .inr (qualified, word) else .inl none

/-- One step of a name: a dot or a plus, and a word behind it. -/
theorem nameStep_eq (qualified : String) (c : Cursor) : nameStep s qualified c =
    match c.next with
    | .error fault => .error fault
    | .ok dot =>
      if dot.current.kind ≠ .dot && dot.current.kind ≠ .plus then .ok (.inl none)
      else dot.next.map (wordStep s qualified) := by
  unfold nameStep
  cases c.next with
  | error fault => rfl
  | ok dot =>
    dsimp only
    -- Behind the joint it only matters what the word says.
    split
    · rfl
    · cases dot.next with
      | error fault => rfl
      | ok word =>
        simp only [Except.map, wordStep]
        split
        · rfl
        · split
          · rfl
          · split <;> rfl

/-- Two steps come to the same, at places that are related. -/
inductive StepsAlike (R : Cursor → Cursor → Prop) :
    Option (TypeDef × Cursor) ⊕ String × Cursor → Option (TypeDef × Cursor) ⊕ String × Cursor → Prop where
  | none : StepsAlike R (.inl none) (.inl none)
  | found {t : TypeDef} {word word' : Cursor} (h : R word word') :
      StepsAlike R (.inl (some (t, word))) (.inl (some (t, word')))
  | again {qualified : String} {word word' : Cursor} (h : R word word') :
      StepsAlike R (.inr (qualified, word)) (.inr (qualified, word'))

/-- What a word adds to a name depends on its kind and its text. -/
theorem stepsAlike_wordStep {R : Cursor → Cursor → Prop} (qualified : String) {word word' : Cursor}
    (hkind : word'.current.kind = word.current.kind) (htext : word'.current.text = word.current.text)
    (h : R word word') : StepsAlike R (wordStep s qualified word) (wordStep s qualified word') := by
  unfold wordStep
  rw [hkind, htext]
  split
  · exact .none
  · dsimp only
    split
    · exact .found h
    · split
      · exact .again h
      · exact .none

variable {s} {qualified : String} {c : Cursor}

/-- Behind a dot or a plus, the name may go on. -/
theorem nameStep_of_joint {dot : Cursor} (hdot : c.next = .ok dot)
    (hjoint : dot.current.kind = .dot ∨ dot.current.kind = .plus) :
    nameStep s qualified c = dot.next.map (wordStep s qualified) := by
  rw [nameStep_eq, hdot]
  exact if_neg (by simpa [Decidable.or_iff_not_imp_left] using hjoint)

/-- Behind anything else it does not. -/
theorem nameStep_of_other {dot : Cursor} (hdot : c.next = .ok dot)
    (hother : ¬ (dot.current.kind = .dot ∨ dot.current.kind = .plus)) :
    nameStep s qualified c = .ok (.inl none) := by
  rw [nameStep_eq, hdot]
  exact if_pos (by simpa using hother)

/-- A word ends the look, or it makes a type or a namespace of the words before it. -/
theorem wordStep_cases (qualified : String) (word : Cursor) : wordStep s qualified word = .inl none ∨
    word.current.kind = .identifier ∧
      ((∃ t, wordStep s qualified word = .inl (some (t, word)) ∧
          s.registry.findAccessible? (qualified ++ "." ++ plainName word.current.text) (some s.context) =
            some t) ∨
        wordStep s qualified word = .inr (qualified ++ "." ++ plainName word.current.text, word)) := by
  unfold wordStep
  split
  · exact .inl rfl
  · rename_i hname
    have hname : word.current.kind = .identifier := Decidable.not_not.1 hname
    dsimp only
    split
    · rename_i t hfound
      exact .inr ⟨hname, .inl ⟨t, rfl, hfound⟩⟩
    · split
      · exact .inr ⟨hname, .inr rfl⟩
      · exact .inl rfl

/-- What a step can come to: either it ends the look, or there are a joint and a word, with which the
words name a type or a namespace. -/
theorem nameStep_eq_ok {next : Option (TypeDef × Cursor) ⊕ String × Cursor}
    (h : nameStep s qualified c = .ok next) : next = .inl none ∨
      ∃ dot word, c.next = .ok dot ∧ (dot.current.kind = .dot ∨ dot.current.kind = .plus) ∧
        dot.next = .ok word ∧ word.current.kind = .identifier ∧
          ((∃ t, next = .inl (some (t, word)) ∧
              s.registry.findAccessible? (qualified ++ "." ++ plainName word.current.text) (some s.context) =
                some t) ∨
            next = .inr (qualified ++ "." ++ plainName word.current.text, word)) := by
  cases hdot : c.next with
  | error fault =>
    rw [nameStep_eq, hdot] at h
    cases h
  | ok dot =>
    -- Without a joint the name has ended; with one a word must follow.
    by_cases hjoint : dot.current.kind = .dot ∨ dot.current.kind = .plus
    · rw [nameStep_of_joint hdot hjoint] at h
      cases hword : dot.next with
      | error fault =>
        rw [hword] at h
        cases h
      | ok word =>
        rw [hword] at h
        cases h
        rcases wordStep_cases qualified word with hnone | ⟨hname, hstep⟩
        · exact .inl hnone
        · exact .inr ⟨dot, word, rfl, hjoint, hword, hname, hstep⟩
    · rw [nameStep_of_other hdot hjoint] at h
      cases h
      exact .inl rfl

/-- A step has a fault where the text has one. -/
theorem nameStep_eq_error {fault : Fault} (h : nameStep s qualified c = .error fault) :
    c.next = .error fault ∨ ∃ dot, c.next = .ok dot ∧ dot.next = .error fault := by
  cases hdot : c.next with
  | error fault' =>
    rw [nameStep_eq, hdot] at h
    cases h
    exact .inl rfl
  | ok dot =>
    -- Only reading a token can fail, and that is the joint or the word.
    by_cases hjoint : dot.current.kind = .dot ∨ dot.current.kind = .plus
    · rw [nameStep_of_joint hdot hjoint] at h
      cases hword : dot.next with
      | error fault' =>
        rw [hword] at h
        cases h
        exact .inr ⟨dot, rfl, hword⟩
      | ok word =>
        rw [hword] at h
        cases h
    · rw [nameStep_of_other hdot hjoint] at h
      cases h

variable (s) in
/-- Behind the words `qualified`, the last of which is at the cursor, the name of a type goes on, up to the
word at `last`. -/
inductive NamesFrom : String → Cursor → TypeDef → Cursor → Prop where
  /-- The next word is the last one. -/
  | last {qualified : String} {c dot word : Cursor} {t : TypeDef} (hdot : c.next = .ok dot)
      (hjoint : dot.current.kind = .dot ∨ dot.current.kind = .plus) (hword : dot.next = .ok word)
      (hname : word.current.kind = .identifier)
      (hfound : s.registry.findAccessible? (qualified ++ "." ++ plainName word.current.text)
        (some s.context) = some t) : NamesFrom qualified c t word
  /-- With the next word the words are those of a namespace. -/
  | again {qualified : String} {c dot word last : Cursor} {t : TypeDef} (hdot : c.next = .ok dot)
      (hjoint : dot.current.kind = .dot ∨ dot.current.kind = .plus) (hword : dot.next = .ok word)
      (hname : word.current.kind = .identifier)
      (hrest : NamesFrom (qualified ++ "." ++ plainName word.current.text) word t last) :
      NamesFrom qualified c t last

/-- A type that is found is found after some steps, by induction on the budget. -/
theorem namesFrom_of_qualifiedType? {budget : Nat} {t : TypeDef} {last : Cursor}
    (h : qualifiedType? s qualified c budget = .ok (some (t, last))) : NamesFrom s qualified c t last := by
  induction budget generalizing qualified c with
  | zero => cases h
  | succ budget ih =>
    rw [qualifiedType?_succ] at h
    cases hstep : nameStep s qualified c with
    | error fault =>
      rw [hstep] at h
      cases h
    | ok next =>
      rw [hstep] at h
      rcases nameStep_eq_ok hstep with rfl | ⟨dot, word, hdot, hjoint, hword, hname, ⟨u, rfl, hfound⟩ | rfl⟩
      · cases h
      · cases h
        exact .last hdot hjoint hword hname hfound
      · exact .again hdot hjoint hword hname (ih h)

end

section

variable (s : Setting) (call : Rule → Typer Operand)

/-! ## §4. Members of what `new` makes. -/

/-- Another round with what has been found, if a comma follows. -/
def commaAfter (found : α) : Typer (Bool × α) := do
  if (← kind) = .comma then
    advance
    pure (true, found)
  else pure (false, found)

/-- A member with its name, if it has one, and the comma after it. -/
def addMember (members : List (String × Operand)) (position : Nat) (a : Operand) (name : Option String) :
    Typer (Bool × List (String × Operand)) := do
  let members ← match name with
    | some name => pure (members ++ [(name, a)])
    | none => failAt position .missingAlias
  commaAfter members

/-- The name of a member and what is made of it: an element of an array needs none, an alias gives
one, and an operand may have one of its own. -/
def memberName (isArray dotted : Bool) (a : Operand) (f : Option String → Typer β) : Typer β := do
  let name ← if isArray then pure (some "")
    else if ← isWord "as" then do
      advance
      some <$> aliasName dotted
    else pure a.name
  f name

/-! ## §5. Literals. -/

/-- A look past a question mark, if one stands there. -/
def pastQuestion (c : Cursor) (f : Cursor → Typer β) : Typer β := do
  let ahead ← if c.current.kind = .question then ofExcept c.next else pure c
  f ahead

/-- What a literal before a parenthesis makes: a value of the type that it names. -/
def construction (value : String) (position : Nat) : Typer Operand := do
  let read ← argumentList call
  match registered? s value with
  | some t => ofExcept (s.registry.construct t read position)
  | none => failAt position (.typeNotFound value)

/-- The literals in a row from a literal on, as one text. -/
def joinedText (token : Token) : Typer Operand := do
  let joined ← adjacentLiterals token.text
  let _ ← ofExcept (Literal.value s.parsing.dialect token.start joined)
  pure (.predefined Known.string)

/-- What follows the look past a literal, and past a question mark behind it. -/
def textRest (token : Token) (ahead : Cursor) : Typer Operand := do
  let value ← ofExcept (Literal.value s.parsing.dialect token.start token.text)
  if token.text.toList.head? = some '\'' then
    if value.length ≠ 1 then fail .notOneCharacter
    advance
    pure (.predefined Known.char)
  else if ahead.current.kind = .openParen then
    jump ahead
    let read ← argumentList call
    match registered? s value with
    | some t => ofExcept (s.registry.construct t read token.start)
    | none => failAt token.start (.typeNotFound value)
  else
    let joined ← adjacentLiterals token.text
    let _ ← ofExcept (Literal.value s.parsing.dialect token.start joined)
    pure (.predefined Known.string)

/-- What follows a string literal, with its value already read. -/
theorem textRest_eq (token : Token) (ahead : Cursor) : textRest s call token ahead = (do
    let value ← ofExcept (Literal.value s.parsing.dialect token.start token.text)
    if token.text.toList.head? = some '\'' then
      if value.length ≠ 1 then fail .notOneCharacter
      advance
      pure (.predefined Known.char)
    else if ahead.current.kind = .openParen then
      jump ahead
      construction s call value token.start
    else joinedText s token) := rfl

/-- A string literal, and the token after it with a question mark between them left out. -/
theorem text_eq : text s call = (do
    let c ← cursor
    let ahead ← ofExcept c.next
    pastQuestion ahead (textRest s call c.current)) := rfl

/-! ## §6. Containments. -/

/-- What stands behind the operator of a containment. -/
def contained (operator : Token) (left : Operand) : Typer Unit := do
  match ← kind with
  | .openParen => containerList s call operator left
  | .identifier =>
    let sequence ← call operand
    match s.registry.elementType? sequence.type with
    | none => failAt operator.start (.incompatibleOperand operator.text sequence.type.name)
    | some element => ofExcept (s.registry.contained operator left (.value element))
  | _ => failAt operator.start .openParenOrIdentifierExpected

/-- The operator of a containment is one token, or two of which the second one is `in`. -/
def pastOperator (isNegated : Bool) (position : Nat) (x : Typer Unit) : Typer Unit := do
  if isNegated then
    advance
    unless ← isWord "in" do failAt position (.expected "in")
  advance
  x

/-- The operator before a list or a sequence, which may be negated. -/
theorem container_eq (left : Operand) : container s call left = (do
    let operator ← current
    pastOperator (operator.text = "not" || operator.kind = .exclamation) operator.start
      (contained s call operator left)) := rfl

end

end TypeAhead.Typing.Rule
