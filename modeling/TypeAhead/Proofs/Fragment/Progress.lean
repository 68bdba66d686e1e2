/-
  TypeAhead.Proofs.Fragment.Progress — THE LOCATOR GOES ON.

  Every rule of the locator takes a token when it succeeds, but for two: a chain of
  names may be over, and a text takes one where there is one.  So each of its loops
  takes a token in every round.

      forward_run              every rule goes on
      roundsConsume_of_loop    every round of a loop takes a token
-/
import TypeAhead.Proofs.Fragment.Recursion
import TypeAhead.Proofs.Walk.Progress

namespace TypeAhead.Fragment.Rule

open Walker

variable {parsing : Parsing} {call : Rule → Locator Unit} {d : Nat} {w : Walk (List Nat)}

/-! ## §1. Parts of bodies. -/

/-- Calls that go on: those that need a token take one, and so does that of a text where there is one. -/
structure Forward (call : Rule → Locator Unit) : Prop where
  goes : ∀ r, Goes (call r)
  consumes : ∀ {r}, needsToken r → Consumes (call r)
  text : ∀ {w : Walk (List Nat)}, w.cursor.current.isFinish = false → ConsumesFrom w (call text)

section

variable (H : Forward call)

include H

/-- Operands with operators between them. -/
theorem goes_chain (rule : Rule) (test : Cursor → Bool) : Goes (chain call rule test) := fun d =>
  steady_bind (H.goes rule d) fun _ => steady_repeatWhile
    (steady_bind steady_advance fun _ => H.goes rule d)

omit H in
/-- The negation before the word `in`. -/
theorem goes_negation (operator : Token) :
    Goes (onlyIf (fun _ => operator.text == "not" || operator.kind == .exclamation) do
      advance
      if ← isWord "in" then pure () else failAt operator.start (.expected "in") : Locator Unit) := fun _ =>
  steady_onlyIf (steady_bind steady_advance fun _ => steady_ifLook (steady_pure _) (steady_stop _))

omit H in
/-- The operator `in`, or `not in`. -/
theorem goes_containmentOperator (operator : Token) : Goes (containmentOperator operator) := fun d =>
  steady_bind (goes_negation operator d) fun _ => steady_advance

/-- An element of the list after `in`. -/
theorem goes_listElement (operator : Token) : Goes (listElement call operator) := fun d =>
  steady_bind steady_advance fun _ => steady_bind (H.goes unary d) fun _ =>
    steady_ifLook (steady_stop _) (steady_pure _)

/-- What stands behind the operator of a containment. -/
theorem goes_contained (operator : Token) : Goes (do
    match ← kind with
    | .openParen =>
      repeatWhile (fun c => !c.isKind .closeParen) (listElement call operator)
      advance
    | .identifier => call operand
    | _ => failAt operator.start .openParenOrIdentifierExpected) := by
  refine fun d => steady_lookThen fun kind => ?_
  split
  · exact steady_bind (steady_repeatWhile (goes_listElement H operator d)) fun _ => steady_advance
  · exact H.goes operand d
  · exact steady_stop _

/-- What `in` is followed by. -/
theorem goes_container : Goes (container call) := fun d =>
  steady_lookThen fun operator => steady_bind (goes_containmentOperator operator d) fun _ =>
    goes_contained H operator d

/-- A member or an index. -/
theorem goes_attachment : Goes (attachment call) := by
  refine fun d => steady_lookThen fun kind => ?_
  split
  · exact steady_bind steady_advance fun _ => H.goes member d
  · exact steady_stop _
  · exact H.goes elementAccess d

/-- Members and indices. -/
theorem goes_attached : Goes (attached call) := fun d => steady_repeatWhile (goes_attachment H d)

/-- The operands of `iif`. -/
theorem goes_choice : Goes (choice call) := fun d =>
  steady_onlyIf (steady_bind steady_advance fun _ => steady_bind (H.goes conditional d) fun _ =>
    steady_bind (steady_expect _ _) fun _ => H.goes conditional d)

/-- The second operand of `np`, if there is one. -/
theorem goes_fallback : Goes (fallback call) := fun d =>
  steady_onlyIf (steady_bind steady_advance fun _ => H.goes conditional d)

/-- The arrow of a lambda, and its body. -/
theorem goes_arrow : Goes (arrow call) := fun d =>
  steady_onlyIf (steady_bind steady_advance fun _ =>
    steady_bind (steady_onlyIf (H.goes conditional d)) fun _ => steady_demand _ _)

/-- The number that takes a minus is the one on which the walk stands. -/
theorem goes_operated (operator : Token) : Goes (operated call operator) := by
  rintro _ w rfl
  apply steadyAt_lookThen
  split
  · exact steadyAt_wordedThen rfl rfl (H.goes operand w.depth) (H.consumes (by decide) _)
  · exact H.goes unary w.depth w rfl

/-- What may follow a name. -/
theorem goes_afterName : Goes (afterName call) := fun d =>
  steady_ifLook (steady_bind steady_advance fun _ => H.goes conditional d)
    (steady_bind (steady_onlyIf (H.goes nameChain d)) fun _ => steady_onlyIf (H.goes argumentList d))

omit H in
theorem goes_createdTypePart : Goes createdTypePart := fun _ =>
  steady_bind steady_advance fun _ => steady_expect _ _

omit H in
/-- The name of the type after `new`. -/
theorem goes_createdType : Goes createdType := fun d =>
  steady_bind steady_advance fun _ => steady_bind (steady_repeatWhile (goes_createdTypePart d)) fun _ =>
    steady_demand _ _

omit H in
theorem goes_arrayMark : Goes arrayMark := fun _ =>
  steady_ifLook (steady_bind steady_advance fun _ => steady_bind (steady_expect _ _) fun _ =>
    steady_bind (steady_demand _ _) fun _ => steady_pure _) (steady_pure _)

omit H in
theorem goes_comma : Goes comma := fun _ =>
  steady_ifLook (steady_bind steady_advance fun _ => steady_pure _) (steady_pure _)

omit H in
/-- The alias of a member of what `new` makes. -/
theorem goes_memberAlias (isArray : Bool) : Goes (onlyIf (fun c => !isArray && c.isWord "as") do
    advance
    let _ ← aliasName parsing.dottedAliases : Locator Unit) := fun _ =>
  steady_onlyIf (steady_bind steady_advance fun _ => steady_bind (steady_aliasName _) fun _ => steady_pure _)

/-- A member of what is made. -/
theorem goes_createdMember (isArray : Bool) : Goes (createdMember parsing call isArray) := fun d =>
  steady_bind (H.goes conditional d) fun _ => goes_memberAlias isArray d

/-- A round over the members of what `new` makes. -/
def createdRound (parsing : Parsing) (call : Rule → Locator Unit) (isArray : Bool) (_ : Unit) :
    Locator (Bool × Unit) := do
  if ← look fun c => c.isAny [.closeParen, .closeCurly] then pure (false, ())
  else
    createdMember parsing call isArray
    comma

omit H in
/-- The members of what is made are read in rounds. -/
theorem createdMembers_eq (isArray : Bool) :
    createdMembers parsing call isArray = repeatStep (createdRound parsing call isArray) () := rfl

theorem goes_createdMembers (isArray : Bool) : Goes (createdMembers parsing call isArray) := by
  intro d
  rw [createdMembers_eq]
  exact steady_repeatStep (fun _ => steady_ifLook (steady_pure _)
    (steady_bind (goes_createdMember H isArray d) fun _ => goes_comma d)) ()

/-- What follows the word `new`. -/
theorem goes_created : Goes (do
    demand (fun c => c.isAny [.openParen, .openCurly, .openBracket, .identifier])
      .openParenOrIdentifierExpected
    onlyIf (fun c => c.isKind .identifier) createdType
    let isArray ← arrayMark
    advance
    createdMembers parsing call isArray
    demand (fun c => c.isAny [.closeParen, .closeCurly]) .closeParenOrCommaExpected
    advance) := fun d =>
  steady_bind (steady_demand _ _) fun _ => steady_bind (steady_onlyIf (goes_createdType d)) fun _ =>
    steady_bind (goes_arrayMark d) fun _ => steady_bind steady_advance fun _ =>
      steady_bind (goes_createdMembers H _ d) fun _ => steady_bind (steady_demand _ _) fun _ =>
        steady_advance

omit H in
/-- One more literal in a row. -/
theorem goes_literalStep (joined : String) : Goes (literalStep joined) := by
  refine fun _ => steady_lookThen fun token => ?_
  split
  · exact steady_bind steady_advance fun _ => steady_pure _
  · exact steady_pure _

omit H in
theorem goes_adjacentLiterals (first : String) : Goes (adjacentLiterals first) := fun d =>
  steady_bind steady_advance fun _ => steady_repeatStep (fun joined => goes_literalStep joined d) first

omit H in
theorem goes_lookAhead : Goes lookAhead := by
  refine fun _ => steady_lookThen fun c => steady_bind (steady_ofExcept _) fun ahead => ?_
  split
  · exact steady_bind (steady_ofExcept _) fun _ => steady_pure _
  · exact steady_pure _

omit H in
theorem goes_literalValue (literal : String) : Goes (literalValue parsing literal) := fun _ =>
  steady_lookThen fun _ => steady_ofExcept _

omit H in
/-- What may follow a literal. -/
theorem goes_literalRest (wording : String) : Goes (literalRest parsing wording) := by
  refine fun d => steady_bind (goes_literalValue wording d) fun value => ?_
  split
  · split
    · exact steady_fail _
    · exact steady_advance
  · exact steady_bind (goes_adjacentLiterals wording d) fun joined =>
      steady_bind (goes_literalValue joined d) fun _ => steady_pure _

omit H in
/-- A literal, whatever it is. -/
theorem goes_literal : Goes (literal parsing) := fun d =>
  steady_bind (goes_lookAhead d) fun _ => steady_lookThen fun token => goes_literalRest token.text d

end

/-! ## §2. Bodies. -/

/-- Where there is no token, a call that has to take one fails. -/
theorem Forward.never (H : Forward call) {r : Rule} (hr : needsToken r) : Never (call r) := by
  intro w hw a v hrun
  have hfinish := (H.consumes hr w a v hrun).isFinish_eq
  rw [hw] at hfinish
  cases hfinish

section

variable (H : Forward call)

include H

/-- A name after a dot. -/
theorem goes_member : Goes (body parsing call member) := by
  rintro _ w rfl
  refine steadyAt_demandThen fun hkind => ?_
  refine steadyAt_wordedThen rfl rfl (steady_bind steady_advance fun _ => goes_afterName H _) ?_
  exact consumesFrom_advanceThen (isFinish_of_isKind (by decide) hkind) (goes_afterName H)

/-- The body of every rule goes on, given that its calls do. -/
theorem goes_body (r : Rule) : Goes (body parsing call r) := by
  intro d
  -- Every move of a body goes forward or stays, and calls do so by hypothesis.
  cases r with
  | conditional =>
    exact steady_nested fun _ =>
      steady_bind (H.goes coalescing _) fun _ => goes_choice H _
  | coalescing => exact steady_bind (H.goes projection d) fun _ => goes_fallback H d
  | projection => exact steady_bind (H.goes disjunction d) fun _ => goes_arrow H d
  | disjunction | conjunction | bitwise | comparison | shift | sum | product | arguments =>
    exact goes_chain H _ _ d
  | containment =>
    exact steady_bind (H.goes bitwise d) fun _ => steady_repeatWhile (goes_container H d)
  | unary =>
    exact steady_nested fun _ => steady_ifLook (steady_lookThen fun operator =>
      steady_bind steady_advance fun _ => goes_operated H operator _) (H.goes operand _)
  | operand =>
    exact steady_bind (steady_hold _) fun _ => steady_bind (H.goes primary d) fun _ =>
      steady_bind (goes_attached H d) fun _ => steady_hold _
  | primary =>
    refine steady_lookThen fun kind => ?_
    split
    · exact steady_ifLook (H.goes creation d) (H.goes member d)
    · exact H.goes text d
    · exact steady_advance
    · exact steady_advance
    · exact H.goes parenthesized d
    · exact steady_fail _
  | member => exact goes_member H d
  | nameChain =>
    exact steady_bind (steady_repeatWhile (steady_bind steady_advance fun _ =>
      steady_onlyIf steady_advance)) fun _ => steady_onlyIf (H.goes member d)
  | argumentList =>
    exact steady_bind (steady_expect _ _) fun _ =>
      steady_bind (steady_onlyIf (H.goes arguments d)) fun _ => steady_expect _ _
  | argument =>
    refine steady_bind steady_discardedOut fun found => ?_
    split
    · exact steady_pure _
    · exact H.goes conditional d
  | elementAccess =>
    exact steady_bind (steady_expect _ _) fun _ =>
      steady_bind (H.goes arguments d) fun _ => steady_expect _ _
  | creation => exact steady_bind steady_advance fun _ => goes_created H d
  | parenthesized =>
    exact steady_bind (steady_expect _ _) fun _ =>
      steady_bind (H.goes conditional d) fun _ => steady_expect _ _
  | text => exact goes_literal d

omit H in
/-- A literal takes a token where there is one. -/
theorem consumes_literal {w : Walk (List Nat)} (hw : w.cursor.current.isFinish = false) :
    ConsumesFrom w (literal parsing) := by
  refine consumesFrom_after goes_lookAhead (fun _ d => steady_lookThen fun token => goes_literalRest _ d)
    fun _ u hu => consumesFrom_lookThen ?_
  refine consumesFrom_after (goes_literalValue _) (fun value d => ?_) fun value v hv => ?_
  · split
    · split
      · exact steady_fail _
      · exact steady_advance
    · exact steady_bind (goes_adjacentLiterals _ d) fun joined => steady_bind (goes_literalValue joined d)
        fun _ => steady_pure _
  · have hv : v.cursor.current.isFinish = false := by rw [hv, hu, hw]
    split
    · split
      · exact (consumes_stop _ _)
      · exact consumesFrom_advance hv
    · refine consumesFrom_bind (consumesFrom_advanceThen hv fun d => ?_) fun joined d =>
        steady_bind (goes_literalValue joined d) fun _ => steady_pure _
      exact steady_repeatStep (fun joined => goes_literalStep joined d) _

/-- A sign stands on a token. -/
theorem consumes_unary : Consumes (body parsing call unary) := by
  refine consumes_nested fun w => consumesFrom_lookThen ?_
  split
  · rename_i hsign
    exact consumesFrom_lookThen (consumesFrom_advanceThen (isFinish_of_test (fun _ => isSign_finish) hsign)
      (goes_operated H _))
  · exact H.consumes (by decide) w

/-- An operand by itself. -/
theorem consumes_primary : Consumes (body parsing call primary) := by
  refine fun w => consumesFrom_lookThen ?_
  split
  · refine consumesFrom_lookThen ?_
    split
    · exact H.consumes (by decide) w
    · exact H.consumes (by decide) w
  · rename_i hkind
    exact H.text (Token.isFinish_of_kind hkind (by decide))
  · rename_i hkind
    exact consumesFrom_advance (Token.isFinish_of_kind hkind (by decide))
  · rename_i hkind
    exact consumesFrom_advance (Token.isFinish_of_kind hkind (by decide))
  · exact H.consumes (by decide) w
  · exact consumes_stop _ w

/-- A member starts with a name, which is taken. -/
theorem consumes_member : Consumes (body parsing call member) :=
  fun _ => consumesFrom_demandThen fun hkind => consumesFrom_wordedThen rfl rfl
    (consumesFrom_advanceThen (isFinish_of_isKind (by decide) hkind) (goes_afterName H))

/-- The body of every rule that needs a token takes one, given that its calls do. -/
theorem consumes_body {r : Rule} (hr : needsToken r) : Consumes (body parsing call r) := by
  cases r with
  | conditional => exact consumes_nested (consumes_bind (H.consumes (by decide)) fun _ => goes_choice H)
  | coalescing => exact consumes_bind (H.consumes (by decide)) fun _ => goes_fallback H
  | projection => exact consumes_bind (H.consumes (by decide)) fun _ => goes_arrow H
  | disjunction | conjunction | bitwise | comparison | shift | sum | product | arguments =>
    exact consumes_bind (H.consumes (by decide)) fun _ d => steady_repeatWhile
      (steady_bind steady_advance fun _ => H.goes _ d)
  | containment => exact consumes_bind (H.consumes (by decide)) fun _ d => steady_repeatWhile (goes_container H d)
  | unary => exact consumes_unary H
  | operand =>
    exact fun w => consumesFrom_then (fun _ => steady_hold _) fun _ u _ =>
      consumesFrom_bind (H.consumes (by decide) u) fun _ d => steady_bind (goes_attached H d) fun _ => steady_hold _
  | primary => exact consumes_primary H
  | member => exact consumes_member H
  | nameChain => exact absurd rfl hr.1
  | argumentList =>
    exact consumes_bind (consumes_expect (by decide) _) fun _ d =>
      steady_bind (steady_onlyIf (H.goes arguments d)) fun _ => steady_expect _ _
  | argument =>
    refine fun w => consumesFrom_discardedOutThen (fun found d => ?_) (H.consumes (by decide) w)
    split
    · exact steady_pure _
    · exact H.goes conditional d
  | elementAccess =>
    exact consumes_bind (consumes_expect (by decide) _) fun _ d =>
      steady_bind (H.goes arguments d) fun _ => steady_expect _ _
  | creation =>
    -- The word `new` is not looked at again, but the rule is never over at the end of the text.
    have hnever : Never (body parsing call creation) := never_body (fun _ => H.never) creation hr
    intro w
    cases hw : w.cursor.current.isFinish with
    | true => exact fun a v hrun => absurd hrun (hnever w hw a v)
    | false => exact consumesFrom_advanceThen hw (goes_created H)
  | parenthesized =>
    exact consumes_bind (consumes_expect (by decide) _) fun _ d =>
      steady_bind (H.goes conditional d) fun _ => steady_expect _ _
  | text => exact absurd rfl hr.2

/-- **The bodies of all rules go on if their calls do.** -/
theorem forward_body : Forward (body parsing call) :=
  ⟨goes_body H, consumes_body H, consumes_literal⟩

end

/-- **Every rule goes on**, with any budget. -/
theorem forward_run (parsing : Parsing) (k : Nat) : Forward (run parsing k) := by
  induction k with
  | zero =>
    -- With no budget every rule fails, and a failure goes nowhere.
    have hstop : Consumes (fail .tooDeep : Locator Unit) := consumes_stop _
    exact ⟨fun _ _ => steady_fail _, fun _ => hstop, fun _ => hstop _⟩
  | succ k ih => exact forward_body ih

/-! ## §3. Loops. -/

/-- The loops of the locator, each of them by its rounds. -/
inductive Loop (parsing : Parsing) (call : Rule → Locator Unit) :
    (α : Type) → (α → Locator (Bool × α)) → Prop where
  /-- Operators and the operands after them, of which arguments after commas are a case. -/
  | links {rule : Rule} (hrule : needsToken rule) (isOperator : Cursor → Bool) :
      Loop parsing call Unit (whileStep isOperator do advance; call rule)
  /-- Containments after an operand. -/
  | containments : Loop parsing call Unit (whileStep startsContainment (container call))
  /-- The elements of the list of a containment. -/
  | elements (operator : Token) :
      Loop parsing call Unit (whileStep (fun c => !c.isKind .closeParen) (listElement call operator))
  /-- What is attached to an operand. -/
  | attachments : Loop parsing call Unit (whileStep isAttached (attachment call))
  /-- The names of a chain. -/
  | names : Loop parsing call Unit (whileStep isJoint do advance; linkedName)
  /-- The name of the type after `new`. -/
  | createdType : Loop parsing call Unit (whileStep isJoint createdTypePart)
  /-- The members of what `new` makes. -/
  | createdMembers (isArray : Bool) : Loop parsing call Unit (createdRound parsing call isArray)
  /-- Literals in a row. -/
  | literals : Loop parsing call String literalStep
  /-- The dots and words of an alias. -/
  | aliasName : Loop parsing call String dottedStep

section

variable (H : Forward call)

include H

/-- A containment starts with its operator. -/
theorem consumes_container (hw : startsContainment w.cursor = true) : ConsumesFrom w (container call) := by
  have hfinish : w.cursor.current.isFinish = false :=
    isFinish_of_test (fun _ => startsContainment_finish) hw
  refine consumesFrom_lookThen (consumesFrom_bind ?_ fun _ => goes_contained H _)
  refine consumesFrom_after (goes_negation _) (fun _ _ => steady_advance) fun _ u hu => ?_
  exact consumesFrom_advance (hu ▸ hfinish)

/-- What is attached starts with a dot or a bracket. -/
theorem consumes_attachment (hw : isAttached w.cursor = true) : ConsumesFrom w (attachment call) := by
  have hfinish : w.cursor.current.isFinish = false := isFinish_of_test (fun _ => isAttached_finish) hw
  refine consumesFrom_lookThen ?_
  split
  · exact consumesFrom_advanceThen hfinish (H.goes member)
  · exact consumes_stop _ w
  · exact H.consumes (by decide) w

/-- Every round of every loop of the grammar takes a token if it asks for another one. -/
theorem roundsConsume_of_loop {α : Type} {step : α → Locator (Bool × α)} (h : Loop parsing call α step) :
    RoundsConsume step := by
  -- Each loop goes on only at a token of its own, which the round takes first.
  cases h with
  | links hrule isOperator =>
    exact roundsConsume_while fun w _ => consumesFrom_then (fun _ => steady_advance) fun _ u _ => H.consumes hrule u
  | containments => exact roundsConsume_while fun _ => consumes_container H
  | elements operator =>
    refine roundsConsume_while fun w _ => consumesFrom_then (fun _ => steady_advance) fun _ u _ =>
      consumesFrom_bind (H.consumes (by decide) u) fun _ _ => steady_ifLook (steady_stop _) (steady_pure _)
  | attachments => exact roundsConsume_while fun _ => consumes_attachment H
  | names =>
    refine roundsConsume_while fun w hw => ?_
    exact consumesFrom_advanceThen (isFinish_of_test (fun _ => isAny_finish (by decide)) hw) fun _ =>
      steady_onlyIf steady_advance
  | createdType =>
    refine roundsConsume_while fun w hw => ?_
    exact consumesFrom_advanceThen (isFinish_of_test (fun _ => isAny_finish (by decide)) hw) fun _ =>
      steady_expect _ _
  | createdMembers isArray =>
    refine fun _ w => roundFrom_lookThen ?_
    split
    · exact roundFrom_stop _ w
    · exact ConsumesFrom.round (consumesFrom_bind
        (consumesFrom_bind (H.consumes (by decide) w) fun _ => goes_memberAlias isArray) fun _ => goes_comma)
  | literals =>
    refine fun joined w => roundFrom_lookThen ?_
    split
    · rename_i hkind
      exact ConsumesFrom.round (consumesFrom_advanceThen (Token.isFinish_of_kind hkind (by decide)) fun _ => steady_pure _)
    · exact roundFrom_stop _ w
  | aliasName => exact roundsConsume_dottedStep

end

end TypeAhead.Fragment.Rule
