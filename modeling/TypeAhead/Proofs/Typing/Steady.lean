/-
  TypeAhead.Proofs.Typing.Steady — RULES OF TYPING GO ON.

  Typing looks ahead in two places, for the name of a type and past a literal, and
  jumps to where it has looked.  Both jumps lead on, as does every token that is
  taken, so no rule goes back; and each leaves the walk as deep as it was.

  The body of a rule calls lower rules, and any rule one level deeper.  It comes to
  the same over other calls if those come to the same.

      NamesFrom.further   where a look for the name of a type leads
      steady_primary      operands by themselves
      steady_body         the bodies of all rules, given their calls
-/
import TypeAhead.Proofs.Typing.SameType
import TypeAhead.Proofs.Walk.Progress

namespace TypeAhead.Typing

open Walker

variable {α β : Type} {d : Nat} {s : Setting} {w : Walk (List Scope)}

/-! ## §1. Scopes. -/

theorem steady_scopes : Steady d scopes scopes :=
  steady_move fun w _ _ h => by cases h; exact .refl w

/-- A scope is opened and closed again, and what is within it goes on. -/
theorem steady_inScope (scope : Scope) {x y : Typer α} (hx : Steady d x y) :
    Steady d (inScope scope x) (inScope scope y) := by
  rintro w rfl
  exact steadyAt_between rfl (fun _ => rfl) (fun _ hu => hu) (hx _ rfl)

/-- A guard, with what is done if it does not hold. -/
theorem steady_unless {b : Bool} {x y : Typer Unit} {f g : Unit → Typer β} (hx : Steady d x y)
    (hf : Steady d (f ()) (g ())) :
    Steady d (if b then f () else x >>= f) (if b then g () else y >>= g) := by
  split
  · exact hf
  · exact steady_bind hx fun _ => hf

namespace Rule

variable {call call' : Rule → Typer Operand}

/-! ## §2. Arguments and members. -/

section

variable (H : Steady d (call conditional) (call' conditional))

include H

/-- A discarded argument is two words, and any other one an expression. -/
theorem steady_argument : Steady d (argument call) (argument call') :=
  steady_bind steady_discardedOut fun found => by
    split
    · exact steady_pure _
    · exact H

/-- One argument, and the comma behind it. -/
theorem steady_argumentStep (read : List Operand) : Steady d (argumentStep call read) (argumentStep call' read) :=
  steady_lookThen fun kind => by
    split
    · exact steady_bind steady_advance fun _ => steady_bind (steady_argument H) fun _ => steady_pure _
    · exact steady_pure _

/-- Arguments up to the first one with no comma behind it. -/
theorem steady_arguments : Steady d (arguments call) (arguments call') := by
  rw [arguments_eq, arguments_eq]
  exact steady_bind (steady_argument H) fun first => steady_repeatStep (steady_argumentStep H) [first]

omit H in
/-- What is read in parentheses, and what is made of it. -/
theorem steady_inParentheses {inner inner' : Typer (List Operand)} {f g : List Operand → Typer β}
    (hinner : Steady d inner inner') (hf : ∀ read, Steady d (f read) (g read)) :
    Steady d (inParentheses inner f) (inParentheses inner' g) := by
  have hrest : ∀ read : List Operand, Steady d (do
      expect .closeParen .closeParenOrCommaExpected
      f read) (do
      expect .closeParen .closeParenOrCommaExpected
      g read) := fun read => steady_bind (steady_expect _ _) fun _ => hf read
  refine steady_bind (steady_expect _ _) fun _ => steady_lookThen fun kind => ?_
  dsimp only
  split
  · exact steady_bind (steady_pure _) hrest
  · exact steady_bind hinner hrest

theorem steady_argumentList : Steady d (argumentList call) (argumentList call') :=
  steady_inParentheses (steady_arguments H) steady_pure

omit H in
/-- The parameter of a body is a word and an arrow, or it is left out. -/
theorem steady_bodyParameter : Steady d bodyParameter bodyParameter := by
  refine steady_lookThen fun c => ?_
  split
  · refine steady_bind (steady_ofExcept _) fun next => ?_
    split
    · exact steady_bind steady_advance fun _ => steady_bind steady_advance fun _ => steady_pure _
    · exact steady_pure _
  · exact steady_pure _

/-- A body is typed in the scope of an element. -/
theorem steady_sequenceBody (element : TypeDef) :
    Steady d (sequenceBody call element) (sequenceBody call' element) := by
  have hrest : Steady d (do
      let parameter ← bodyParameter
      inScope ⟨element, parameter⟩ (call conditional)) (do
      let parameter ← bodyParameter
      inScope ⟨element, parameter⟩ (call' conditional)) :=
    steady_bind steady_bodyParameter fun parameter => steady_inScope _ H
  refine steady_bind steady_scopes fun scopes => ?_
  dsimp only
  split
  · exact steady_bind (steady_fail _) fun _ => hrest
  · exact hrest

/-- An operator of sequences is called with a body or with arguments. -/
theorem steady_calledWith (o : SequenceOperator) (element : TypeDef) :
    Steady d (calledWith call o element) (calledWith call' o element) := by
  unfold calledWith
  split
  · exact steady_map (steady_sequenceBody H element)
  · exact steady_arguments H

/-- The call of an operator of sequences; its result is looked up and not read. -/
theorem steady_sequenceCall (o : SequenceOperator) (element : TypeDef) (name : String) :
    Steady d (sequenceCall s call o element name) (sequenceCall s call' o element name) := by
  rw [sequenceCall_eq, sequenceCall_eq]
  exact steady_lookThen fun position =>
    steady_inParentheses (steady_calledWith H o element) fun read => steady_ofExcept _

omit H in
/-- To look up the type of a member moves no walk. -/
theorem steady_mentioned (name : String) (position : Nat) :
    Steady d (mentioned s name position) (mentioned s name position) := by
  unfold mentioned
  split
  · exact steady_pure _
  · exact steady_stop _

/-- The arguments of a method are read before one of the methods is selected. -/
theorem steady_methodCall (owner : TypeDef) (methods : List Method) (name : String) (position : Nat) :
    Steady d (methodCall s call owner methods name position) (methodCall s call' owner methods name position) := by
  refine steady_bind (steady_argumentList H) fun read => ?_
  split
  · exact steady_map (steady_mentioned _ _)
  · exact steady_stop _

/-- A member, by its name and by what stands behind it. -/
theorem steady_memberAccess (owner : TypeDef) (binding : Binding) :
    Steady d (memberAccess s call owner binding) (memberAccess s call' owner binding) := by
  refine steady_bind (steady_demand _ _) fun _ => steady_lookThen fun token =>
    steady_bind steady_advance fun _ => steady_lookThen fun kind => ?_
  split
  · simp only
    split
    · exact steady_sequenceCall H _ _ _
    · exact steady_methodCall H owner _ _ _
  · split
    · exact steady_bind (steady_mentioned _ _) fun _ => steady_pure _
    · exact steady_stop _

/-- The arguments of an indexer, in brackets. -/
theorem steady_indexed (owner : TypeDef) (position : Nat) :
    Steady d (indexed s call owner position) (indexed s call' owner position) := by
  refine steady_bind (steady_arguments H) fun read => steady_bind (steady_expect _ _) fun _ => ?_
  dsimp only
  split
  · exact steady_map (steady_mentioned _ _)
  · exact steady_stop _

theorem steady_elementAccess (owner : TypeDef) :
    Steady d (elementAccess s call owner) (elementAccess s call' owner) :=
  steady_lookThen fun position => steady_bind (steady_expect _ _) fun _ => steady_indexed H owner position

end

/-! ## §3. Names of types. -/

/-- The word behind a joint comes later than the place before it. -/
theorem further_of_joint {c dot word : Cursor} (hdot : c.next = .ok dot)
    (hjoint : dot.current.kind = .dot ∨ dot.current.kind = .plus) (hword : dot.next = .ok word) :
    c.Further word := by
  have hdotFinish : dot.current.isFinish = false :=
    isFinish_of_holds (fun k => k = .dot ∨ k = .plus) hjoint (by decide)
  -- A cursor at the end of the text would stay where it is.
  have hfinish : c.current.isFinish = false := by
    refine Bool.eq_false_iff.2 fun hc => ?_
    rw [Cursor.next, if_pos hc] at hdot
    cases hdot
    rw [hc] at hdotFinish
    cases hdotFinish
  exact .after hfinish hdot (.next hdotFinish hword)

/-- A word from which a look goes on is behind a joint. -/
theorem further_of_nameStep {qualified longer : String} {c word : Cursor}
    (h : nameStep s qualified c = .ok (.inr (longer, word))) : c.Further word := by
  rcases nameStep_eq_ok h with hnone | ⟨dot, word', hdot, hjoint, hword, -, ⟨t, hnext, -⟩ | hnext⟩
  · cases hnone
  · cases hnext
  · cases hnext
    exact further_of_joint hdot hjoint hword

/-- The last word of the name of a type comes later than the first one. -/
theorem NamesFrom.further {qualified : String} {c last : Cursor} {t : TypeDef}
    (h : NamesFrom s qualified c t last) : c.Further last := by
  induction h with
  | last hdot hjoint hword _ _ => exact further_of_joint hdot hjoint hword
  | again hdot hjoint hword _ _ ih => exact (further_of_joint hdot hjoint hword).trans ih

/-- The name of a type is looked for ahead of the walk, which then stands behind it or stays. -/
theorem steady_typeName : Steady d (typeName s) (typeName s) := by
  rintro w rfl
  apply steadyAt_lookThen
  dsimp only [id]
  split
  · exact steady_bind steady_advance (fun _ => steady_pure _) w rfl
  · split
    · refine steadyAt_ofExceptThen fun found hfound => ?_
      cases found with
      | none => exact steady_pure none w rfl
      | some found =>
        obtain ⟨t, last⟩ := found
        exact steadyAt_jumpThen ⟨rfl, .inr (namesFrom_of_qualifiedType? hfound).further⟩
          (steady_bind steady_advance fun _ => steady_pure _)
    · exact steady_pure none w rfl

section

variable (H : Steady d (call conditional) (call' conditional))

include H

/-- What may follow the name of a type: a member, a value in parentheses or nothing. -/
theorem steady_typeAccess (t : TypeDef) (position : Nat) :
    Steady d (typeAccess s call t position) (typeAccess s call' t position) := by
  refine steady_lookThen fun kind => ?_
  split
  · exact steady_bind (steady_argumentList H) fun read => steady_ofExcept _
  · exact steady_bind steady_advance fun _ => steady_memberAccess H t _
  · exact steady_fail _

omit H in
/-- To ask for a member moves no walk. -/
theorem steady_hasMember (t : TypeDef) (name : String) : Steady d (hasMember s t name) (hasMember s t name) := by
  unfold hasMember
  dsimp only
  split
  · exact steady_pure _
  · exact steady_lookThen fun c => steady_bind (steady_ofExcept _) fun next => steady_pure _

/-! ## §4. Keywords. -/

/-- The three arguments of `iif`. -/
theorem steady_choice : Steady d (choice s call) (choice s call') := by
  refine steady_lookThen fun position => steady_bind steady_advance fun _ =>
    steady_bind (steady_argumentList H) fun read => ?_
  split
  · exact steady_bind (steady_ofExcept _) fun _ => steady_ofExcept _
  · exact steady_stop _

/-- The one or two arguments of `np`. -/
theorem steady_nullPropagation : Steady d (nullPropagation s call) (nullPropagation s call') := by
  refine steady_lookThen fun position => steady_bind steady_advance fun _ =>
    steady_bind (steady_argumentList H) fun read => ?_
  split
  · exact steady_pure _
  · exact steady_ofExcept _
  · exact steady_stop _

omit H in
/-- One more word of the name of a type after `new`. -/
theorem steady_createdNameStep (name : String) : Steady d (createdNameStep name) (createdNameStep name) :=
  steady_ifLook (steady_bind steady_advance fun _ => steady_bind (steady_demand _ _) fun _ =>
    steady_lookThen fun _ => steady_bind steady_advance fun _ => steady_pure _) (steady_pure _)

omit H in
theorem steady_createdName : Steady d createdName createdName := by
  rw [createdName_eq]
  exact steady_lookThen fun _ => steady_bind steady_advance fun _ =>
    steady_bind (steady_repeatStep steady_createdNameStep _) fun name => steady_lookThen fun _ =>
      steady_unless (steady_fail _) (steady_pure name)

omit H in
theorem steady_arrayMark : Steady d arrayMark arrayMark := by
  refine steady_lookThen fun kind => ?_
  split
  · exact steady_bind steady_advance fun _ => steady_bind (steady_expect _ _) fun _ =>
      steady_bind (steady_demand _ _) fun _ => steady_pure true
  · exact steady_pure false

omit H in
/-- A comma, if there is one. -/
theorem steady_commaAfter (found : α) : Steady d (commaAfter found) (commaAfter found) := by
  refine steady_lookThen fun kind => ?_
  split
  · exact steady_bind steady_advance fun _ => steady_pure _
  · exact steady_pure _

omit H in
/-- To give a member its name moves no walk. -/
theorem steady_addMember (members : List (String × Operand)) (position : Nat) (a : Operand) (name : Option String) :
    Steady d (addMember members position a name) (addMember members position a name) := by
  cases name with
  | none => exact steady_bind (steady_stop _) steady_commaAfter
  | some name => exact steady_bind (steady_pure _) steady_commaAfter

omit H in
/-- The name that `as` gives to a member. -/
theorem steady_memberName (isArray dotted : Bool) (a : Operand) {f g : Option String → Typer β}
    (hf : ∀ name, Steady d (f name) (g name)) :
    Steady d (memberName isArray dotted a f) (memberName isArray dotted a g) := by
  refine steady_lookThen fun isAs => ?_
  split
  · exact steady_bind (steady_pure _) hf
  · split
    · exact steady_bind steady_advance fun _ => steady_bind (steady_map (steady_aliasName _)) hf
    · exact steady_bind (steady_pure _) hf

omit H in
/-- What is made of a member once its value has been typed. -/
theorem steady_createdMember (isArray : Bool) (members : List (String × Operand)) (position : Nat) (a : Operand) :
    Steady d (createdMember s isArray members position a) (createdMember s isArray members position a) :=
  steady_memberName isArray _ a (steady_addMember members position a)

/-- One member of what `new` makes, and the comma behind it. -/
theorem steady_createdStep (isArray : Bool) (members : List (String × Operand)) :
    Steady d (createdStep s call isArray members) (createdStep s call' isArray members) := by
  refine steady_lookThen fun closed => ?_
  split
  · exact steady_pure _
  · exact steady_lookThen fun position => steady_bind H fun a => steady_createdMember isArray members position a

/-- All of its members, up to the closing bracket. -/
theorem steady_createdMembers (isArray : Bool) :
    Steady d (createdMembers s call isArray) (createdMembers s call' isArray) := by
  rw [createdMembers_eq, createdMembers_eq]
  exact steady_bind (steady_repeatStep (steady_createdStep H isArray) []) fun members =>
    steady_lookThen fun _ => steady_unless (steady_fail _)
      (steady_bind steady_advance fun _ => steady_pure members)

/-- The members between the brackets, and the type that comes of them. -/
theorem steady_createdBody (target : Option TypeDef) (position : Nat) :
    Steady d (createdBody s call target position) (createdBody s call' target position) := by
  refine steady_bind steady_arrayMark fun isArray => steady_bind steady_advance fun _ =>
    steady_bind (steady_createdMembers H isArray) fun members => ?_
  split
  · split
    · exact steady_pure _
    · refine steady_bind (steady_ofExcept _) fun element => ?_
      cases element <;> exact steady_pure _
  · exact steady_pure _

/-- A creation, from `new` on. -/
theorem steady_creation : Steady d (creation s call) (creation s call') := by
  refine steady_lookThen fun position => steady_bind steady_advance fun _ =>
    steady_lookThen fun _ => ?_
  dsimp only
  refine steady_unless (steady_fail _) (steady_lookThen fun kind => ?_)
  split
  · refine steady_lookThen fun start => steady_bind steady_createdName fun name => ?_
    split
    · exact steady_stop _
    · refine steady_lookThen fun kind => ?_
      split
      · exact steady_bind (steady_argumentList H) fun read => steady_ofExcept _
      · exact steady_createdBody H _ _
  · exact steady_createdBody H none _

/-! ## §5. Words and literals. -/

/-- A name that is no keyword. -/
theorem steady_name (it : TypeDef) : Steady d (name s call it) (name s call' it) := by
  refine steady_lookThen fun token => steady_bind steady_typeName fun found => ?_
  cases found with
  | some t => exact steady_typeAccess H t _
  | none =>
    exact steady_bind (steady_hasMember it _) fun has => steady_unless (steady_fail _) (steady_memberAccess H it _)

/-- A word goes by the first of the tables in which it is found. -/
theorem steady_word : Steady d (word s call) (word s call') := by
  refine steady_bind steady_scopes fun scopes => steady_lookThen fun token => ?_
  dsimp only
  split
  · exact steady_bind steady_advance fun _ => steady_pure _
  iterate 2
    cases scopes with
    | nil => exact steady_fail _
    | cons scope outer => exact steady_bind steady_advance fun _ => steady_pure _
  iterate 3 exact steady_bind steady_advance fun _ => steady_pure _
  · exact steady_choice H
  · exact steady_nullPropagation H
  · exact steady_creation H
  · split
    · exact steady_bind steady_advance fun _ => steady_pure _
    · exact steady_name H _

omit H in
theorem steady_literalStep (joined : String) : Steady d (literalStep joined) (literalStep joined) := by
  refine steady_lookThen fun token => ?_
  split
  · exact steady_bind steady_advance fun _ => steady_pure _
  · exact steady_pure _

omit H in
/-- Literals in a row. -/
theorem steady_adjacentLiterals (first : String) :
    Steady d (adjacentLiterals first) (adjacentLiterals first) := by
  rw [adjacentLiterals_eq]
  exact steady_bind steady_advance fun _ => steady_repeatStep steady_literalStep first

/-- A literal before a parenthesis names the type of what is made. -/
theorem steady_construction (value : String) (position : Nat) :
    Steady d (construction s call value position) (construction s call' value position) := by
  refine steady_bind (steady_argumentList H) fun read => ?_
  split
  · exact steady_ofExcept _
  · exact steady_stop _

omit H in
/-- What the literals of a row stand for, joined. -/
theorem steady_joinedText (token : Token) : Steady d (joinedText s token) (joinedText s token) :=
  steady_bind (steady_adjacentLiterals _) fun _ => steady_bind (steady_ofExcept _) fun _ => steady_pure _

/-- A literal that names a type jumps to what stands in parentheses behind it. -/
theorem steadyAt_textRest {ahead : Cursor} (token : Token) (hahead : GoesOn w { w with cursor := ahead })
    (hw : w.depth = d) : SteadyAt w (textRest s call token ahead) (textRest s call' token ahead) := by
  subst hw
  refine steadyAt_ofExceptThen fun value _ => ?_
  dsimp only
  split
  · split
    · exact steady_bind (steady_fail _) (fun _ => steady_bind steady_advance fun _ => steady_pure _) w rfl
    · exact steady_bind steady_advance (fun _ => steady_pure _) w rfl
  · split
    · exact steadyAt_jumpThen hahead (steady_construction H _ _)
    · exact steady_joinedText token w rfl

/-- A literal, by itself, in a row or before a parenthesis. -/
theorem steady_text : Steady d (text s call) (text s call') := by
  rintro w rfl
  refine steadyAt_lookThen (steadyAt_ofExceptThen fun c hc => ?_)
  have hpast : ∀ c, GoesOn w { w with cursor := c } → SteadyAt w (textRest s call w.cursor.current c)
      (textRest s call' w.cursor.current c) := fun c hc => steadyAt_textRest H _ hc rfl
  have hc := goesOn_next hc
  dsimp only
  split
  · exact steadyAt_ofExceptThen fun e he => hpast e (hc.trans (goesOn_next he))
  · exact ⟨(hpast c hc).run_eq, (hpast c hc).goesOn⟩

omit H in
/-- A number is one token. -/
theorem steady_number (typeOf? : String → Option String) (form : Form) (invalid : String → Cause) :
    Steady d (number typeOf? form invalid) (number typeOf? form invalid) := by
  refine steady_lookThen fun token => ?_
  split
  · exact steady_fail _
  · exact steady_bind steady_advance fun _ => steady_pure _

theorem steady_primary : Steady d (primary s call) (primary s call') := by
  refine steady_lookThen fun kind => ?_
  split
  · exact steady_word H
  · exact steady_text H
  · exact steady_number _ _ _
  · exact steady_number _ _ _
  · exact steady_bind steady_advance fun _ => steady_bind H fun inner =>
      steady_bind (steady_expect _ _) fun _ => steady_pure inner
  · exact steady_fail _

/-- One thing that is attached to an operand. -/
theorem steady_attachedStep (a : Operand) : Steady d (attachedStep s call a) (attachedStep s call' a) := by
  refine steady_lookThen fun kind => ?_
  split
  · exact steady_bind steady_advance fun _ => steady_bind (steady_memberAccess H _ _) fun _ => steady_pure _
  · exact steady_stop _
  · exact steady_bind (steady_elementAccess H _) fun _ => steady_pure _
  · exact steady_pure _

/-- All of them. -/
theorem steady_attached (a : Operand) : Steady d (attached s call a) (attached s call' a) := by
  rw [attached_eq, attached_eq]
  exact steady_repeatStep (steady_attachedStep H) a

end

/-! ## §6. Operators. -/

/-- An operator and the operand behind it. -/
theorem steady_linkStep {rule : Rule} (H : Steady d (call rule) (call' rule)) (isOperator : Cursor → Bool)
    (left : Operand) : Steady d (linkStep s call rule isOperator left) (linkStep s call' rule isOperator left) := by
  refine steady_lookThen fun c => ?_
  split
  · exact steady_lookThen fun token => steady_bind steady_advance fun _ => steady_bind H fun right =>
      steady_bind (steady_ofExcept _) fun both => steady_pure _
  · exact steady_pure _

/-- Operands with operators between them. -/
theorem steady_chain {rule : Rule} (H : Steady d (call rule) (call' rule)) (isOperator : Cursor → Bool) :
    Steady d (chain s call rule isOperator) (chain s call' rule isOperator) := by
  rw [chain_eq, chain_eq]
  exact steady_bind H fun first => steady_repeatStep (steady_linkStep H isOperator) first

/-- What has to stand behind an element of a list. -/
theorem steady_afterElement (operator : Token) (left element : Operand) :
    Steady d (afterElement s operator left element) (afterElement s operator left element) := by
  refine steady_bind (steady_ofExcept _) fun _ => steady_lookThen fun kind => ?_
  split
  · exact steady_pure _
  · exact steady_pure _
  · exact steady_stop _
  · exact steady_fail _

/-- One element of the list of a containment. -/
theorem steady_elementStep (H : Steady d (call unary) (call' unary)) (operator : Token) (left : Operand) (u : Unit) :
    Steady d (elementStep s call operator left u) (elementStep s call' operator left u) :=
  steady_bind steady_advance fun _ => steady_bind H fun element => steady_afterElement operator left element

/-- All of its elements, up to the closing parenthesis. -/
theorem steady_containerList (H : Steady d (call unary) (call' unary)) (operator : Token) (left : Operand) :
    Steady d (containerList s call operator left) (containerList s call' operator left) := by
  rw [containerList_eq, containerList_eq]
  exact steady_bind (steady_repeatStep (steady_elementStep H operator left) ()) fun _ => steady_advance

/-- The operator of a containment, with its negation. -/
theorem steady_pastOperator (isNegated : Bool) (position : Nat) {x y : Typer Unit} (h : Steady d x y) :
    Steady d (pastOperator isNegated position x) (pastOperator isNegated position y) := by
  have hlast : Steady d (advance >>= fun _ => x) (advance >>= fun _ => y) :=
    steady_bind steady_advance fun _ => h
  unfold pastOperator
  split
  · exact steady_bind steady_advance fun _ => steady_lookThen fun _ => steady_unless (steady_stop _) hlast
  · exact hlast

section

variable (hunary : Steady d (call unary) (call' unary)) (hoperand : Steady d (call operand) (call' operand))

include hunary hoperand

/-- The right side of a containment: a list, or one operand. -/
theorem steady_contained (operator : Token) (left : Operand) :
    Steady d (contained s call operator left) (contained s call' operator left) := by
  refine steady_lookThen fun kind => ?_
  split
  · exact steady_containerList hunary operator left
  · refine steady_bind hoperand fun sequence => ?_
    split
    · exact steady_stop _
    · exact steady_ofExcept _
  · exact steady_stop _

/-- An operator of containment and its right side. -/
theorem steady_container (left : Operand) : Steady d (container s call left) (container s call' left) := by
  rw [container_eq, container_eq]
  exact steady_lookThen fun operator =>
    steady_pastOperator _ _ (steady_contained hunary hoperand operator left)

end

theorem steady_containmentStep (hunary : Steady d (call unary) (call' unary))
    (hoperand : Steady d (call operand) (call' operand)) (left : Operand) :
    Steady d (containmentStep s call left) (containmentStep s call' left) := by
  refine steady_lookThen fun c => ?_
  split
  · exact steady_bind (steady_container hunary hoperand left) fun _ => steady_pure _
  · exact steady_pure _

/-! ## §7. Bodies. -/

/-- How many rules may be under way from a rule on, down to the next nested one. -/
def callHeight : Rule → Nat
  | conditional | unary => 1
  | operand | product => 2
  | sum => 3
  | shift => 4
  | comparison => 5
  | bitwise => 6
  | containment => 7
  | conjunction => 8
  | disjunction => 9
  | projection => 10
  | coalescing => 11

/-- The calls of the body of a rule: of lower rules, and of any rule one level deeper. -/
structure Below (call call' : Rule → Typer Operand) (d : Nat) (r : Rule) : Prop where
  lower : ∀ {sub : Rule}, sub.callHeight < r.callHeight → Steady d (call sub) (call' sub)
  deeper : ∀ sub, d < Limits.nesting → Steady (d + 1) (call sub) (call' sub)

/-- The number that takes a minus is the one on which the walk stands. -/
theorem steady_unary (H : Below call call' d unary) (hoperand : Consumes (call operand)) :
    Steady d (body s call unary) (body s call' unary) := by
  refine steady_nested fun hd => steady_lookThen fun sign => steady_lookThen fun isNot => ?_
  split
  · refine steady_lookThen fun operator => steady_bind steady_advance fun _ => ?_
    -- The walk stands still on the number, so this part is compared at the walk itself.
    rintro w hw
    apply steadyAt_lookThen
    split
    · exact steadyAt_wordedThen rfl rfl (hw ▸ H.deeper operand hd) (hoperand _)
    · exact steady_bind (H.deeper unary hd) (fun a => steady_ofExcept _) w hw
  · exact H.deeper operand hd

/-- **Every body goes on as far as its calls do**, with one call after the other. -/
theorem steady_body {r : Rule} (H : Below call call' d r) (hoperand : Consumes (call operand)) :
    Steady d (body s call r) (body s call' r) := by
  -- With a larger budget every rule is called as before, as what it calls goes past a token or is below
  -- it.
  cases r with
  | conditional =>
    refine steady_nested fun hd => steady_lookThen fun position =>
      steady_bind (H.deeper coalescing hd) fun test => steady_lookThen fun kind => ?_
    split
    · exact steady_bind (steady_ofExcept _) fun _ => steady_lookThen fun question =>
        steady_bind steady_advance fun _ => steady_bind (H.deeper conditional hd) fun a =>
          steady_bind (steady_expect _ _) fun _ => steady_bind (H.deeper conditional hd) fun b =>
            steady_ofExcept _
    · exact steady_pure test
  | coalescing =>
    refine steady_bind (H.lower (by decide)) fun left => steady_lookThen fun kind => ?_
    split
    · refine steady_lookThen fun operator => steady_bind steady_advance fun _ =>
        steady_bind (H.lower (by decide)) fun right => ?_
      repeat' split
      · exact steady_pure _
      · exact steady_pure _
      · exact steady_pure _
      · exact steady_ofExcept _
    · exact steady_pure left
  | projection =>
    refine steady_bind (H.lower (by decide)) fun left => steady_lookThen fun kind => ?_
    dsimp only
    split
    · exact steady_bind (steady_fail _) fun _ => steady_pure left
    · exact steady_pure left
  | disjunction | conjunction | bitwise | comparison | shift | sum | product =>
    exact steady_chain (H.lower (by decide)) _
  | containment =>
    rw [body_containment_eq, body_containment_eq]
    exact steady_bind (H.lower (by decide)) fun first =>
      steady_repeatStep (steady_containmentStep (H.lower (by decide)) (H.lower (by decide))) first
  | unary => exact steady_unary H hoperand
  | operand =>
    have hconditional : Steady d (call conditional) (call' conditional) := H.lower (by decide)
    exact steady_bind (steady_primary hconditional) fun first => steady_attached hconditional first

end Rule

end TypeAhead.Typing
