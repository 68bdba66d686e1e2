/-
  TypeAhead.Proofs.Typing.Confinement — AN EXPRESSION ONLY GETS TO TYPES THAT ARE REACHED.

  The grammar, part by part: each part is confined if the rules that it calls are,
  and so all rules are with any budget.  Names are looked up in four places.  In
  two of them only accessible types are found; what stands after `new` or in a
  literal before a parenthesis may be any type that is registered.

      confined_creation    `new` with what it makes
      confined_text        a literal that names a type
      confined_run         every rule, with every budget
      compile_within       the type of a text
-/
import TypeAhead.Proofs.Types.History
import TypeAhead.Proofs.Typing.Confined
import TypeAhead.Proofs.Typing.Parts

namespace TypeAhead.Typing

namespace Rule

open Walker Registry

variable {s : Setting} {text : List Char} {call : Rule → Typer Operand} {w : ScopedWalk}
  {owner t : TypeDef} {n : String} {start : Nat} {binding : Binding}

/-- The calls of a body are confined. -/
def ConfinedCalls (s : Setting) (text : List Char) (call : Rule → Typer Operand) : Prop :=
  ∀ r w, Sound s text w → Confined s text (call r) (s.Holds text) w

/-! ## §1. Arguments. -/

/-- An argument is over a type that is reached, the discarded `out` included. -/
theorem confined_argument (hcall : ConfinedCalls s text call) (hw : Sound s text w) :
    Confined s text (argument call) (s.Holds text) w := by
  apply confined_bind (confined_discardedOut hw)
  intro found v _ hv
  split
  · exact confined_pure hv (within_predefinedValue Known.object)
  · exact hcall conditional v hv

/-- All arguments between commas are over types that are reached. -/
theorem confined_arguments (hcall : ConfinedCalls s text call) (hw : Sound s text w) :
    Confined s text (arguments call) (fun read => ∀ a ∈ read, s.Holds text a) w := by
  apply confined_bind (confined_argument hcall hw)
  intro first v hfirst hv
  -- All arguments so far are confined: this holds of the first one, and every round adds another.
  apply confined_repeatStep hv
  · intro a ha
    rw [List.mem_singleton.1 ha]
    exact hfirst
  intro read v hread hv
  apply confined_look
  split
  · apply confined_bind (confined_advance hv)
    intro _ v _ hv
    apply confined_bind (confined_argument hcall hv)
    intro next v hnext hv
    apply confined_pure hv
    intro a ha
    rcases List.mem_append.1 ha with ha | ha
    · exact hread a ha
    · rw [List.mem_singleton.1 ha]
      exact hnext
  · exact confined_pure hv hread

/-- What is read in parentheses is known of by `P`, which has to hold of nothing being read. -/
theorem confined_inParentheses {inner : Typer (List Operand)} {f : List Operand → Typer β}
    {P : List Operand → Prop} {Q : β → Prop} (hnone : P []) (hw : Sound s text w)
    (hinner : ∀ v, Sound s text v → Confined s text inner P v)
    (hf : ∀ read v, P read → Sound s text v → Confined s text (f read) Q v) :
    Confined s text (inParentheses inner f) Q w := by
  -- With or without something inside, the bracket is closed and what was read goes on.
  have hclose : ∀ (read : List Operand) (v), P read → Sound s text v →
      Confined s text (do
        expect .closeParen .closeParenOrCommaExpected
        f read) Q v := by
    intro read v hread hv
    apply confined_bind (confined_expect hv rfl)
    intro _ u _ hu
    exact hf read u hread hu
  apply confined_bind (confined_expect hw rfl)
  intro _ v _ hv
  apply confined_look
  dsimp only
  split
  · exact confined_bind (confined_pure hv hnone) hclose
  · exact confined_bind (hinner v hv) hclose

/-- Arguments in parentheses. -/
theorem confined_argumentList (hcall : ConfinedCalls s text call) (hw : Sound s text w) :
    Confined s text (argumentList call) (fun read => ∀ a ∈ read, s.Holds text a) w :=
  confined_inParentheses nofun hw (fun _ => confined_arguments hcall) fun _ _ hread hv =>
    confined_pure hv hread

/-! ## §2. Members. -/

/-- The parameter of a body is a name, not a type. -/
theorem confined_bodyParameter (hw : Sound s text w) :
    Confined s text bodyParameter (fun _ => True) w := by
  apply confined_look
  dsimp only [id]
  split
  · apply confined_ofExceptThen Cursor.isPlain_of_peek
    intro next _
    split
    · apply confined_bind (confined_advance hw)
      intro _ v _ hv
      apply confined_bind (confined_advance hv)
      intro _ u _ hu
      exact confined_pure hu trivial
    · exact confined_pure hw trivial
  · exact confined_pure hw trivial

/-- In the body of a sequence operator, `it` is of the type of the elements. -/
theorem confined_sequenceBody (hcall : ConfinedCalls s text call) {element : TypeDef}
    (helement : s.Attains text element) (hw : Sound s text w) :
    Confined s text (sequenceBody call element) (s.Holds text) w := by
  apply confined_scopes
  dsimp only
  split
  · exact confined_failThen rfl
  · apply confined_bind (confined_bodyParameter hw)
    intro parameter v _ hv
    exact confined_inScope hv helement (hcall conditional)

/-- A body is read in a scope over the elements, which are reached since the sequence is. -/
theorem confined_calledWith (hcall : ConfinedCalls s text call) {o : SequenceOperator}
    {element : TypeDef} (helement : s.Attains text element) (hw : Sound s text w) :
    Confined s text (calledWith call o element) (fun read => ∀ a ∈ read, s.Holds text a) w := by
  unfold calledWith
  split
  · apply confined_map (confined_sequenceBody hcall helement hw)
    intro a ha b hb
    rw [List.mem_singleton.1 hb]
    exact ha
  · exact confined_arguments hcall hw

/-- The result of a sequence operator is made of its element and its arguments. -/
theorem confined_sequenceCall (hcall : ConfinedCalls s text call) {o : SequenceOperator}
    {element : TypeDef} (helement : s.Attains text element) (hw : Sound s text w) :
    Confined s text (sequenceCall s call o element n) (s.Holds text) w := by
  rw [sequenceCall_eq]
  apply confined_look
  apply confined_inParentheses nofun hw (fun _ => confined_calledWith hcall helement)
  intro read v hread hv
  apply confined_ofExcept hv
  · exact fun a ha => within_result helement hread ha
  · exact SequenceOperator.isPlain_of_result

/-- The type of a member may be missing. -/
theorem confined_mentioned (hname : s.registry.IsMemberType s.context (s.Named text) n)
    (hw : Sound s text w) : Confined s text (mentioned s n start) (s.Attains text) w := by
  unfold mentioned
  split
  · rename_i t hget
    exact confined_pure hw (hname.within hget)
  · rename_i hget
    have hexcused : s.MayMiss text n := .inr ⟨hget, hname⟩
    exact .failAt trivial hexcused

/-- The result of a method is that of a member of a type that is reached. -/
theorem confined_methodCall (hcall : ConfinedCalls s text call) (howner : s.Attains text owner)
    (hw : Sound s text w) :
    Confined s text (methodCall s call owner
      (s.registry.findMethods owner n binding s.parsing.ignoreCase) n start)
      (s.Holds text) w := by
  apply confined_bind (confined_argumentList hcall hw)
  intro read v _ hv
  split
  · rename_i m hselected
    obtain ⟨parameters, hmem⟩ := mem_of_selectOverload hselected
    obtain ⟨other, hother, heq⟩ := List.mem_map.1 hmem
    cases heq
    apply confined_map (confined_mentioned (memberType_of_mem_findMethods howner hother) hv)
    exact fun _ ht => ht
  · exact confined_failAt rfl

/-- The elements of a sequence that is reached are reached. -/
theorem attains_of_sequenceOperator? (howner : s.Attains text owner) {element : TypeDef}
    {o : SequenceOperator} (h : sequenceOperator? s owner n = some (element, o)) :
    s.Attains text element := by
  unfold sequenceOperator? at h
  split at h
  · rename_i helement _
    cases h
    exact within_elementType howner helement
  · cases h

/-- What a name after a dot leads to. -/
theorem confined_memberAccess (hcall : ConfinedCalls s text call) (howner : s.Attains text owner)
    (hw : Sound s text w) :
    Confined s text (memberAccess s call owner binding) (s.Holds text) w := by
  apply confined_requireThen rfl
  intro _
  apply confined_look
  apply confined_bind (confined_advance hw)
  intro _ v _ hv
  apply confined_look
  -- A name before a bracket is called: an operator of sequences, or else a method.
  split
  · dsimp only
    split
    · rename_i hoperator
      apply confined_sequenceCall hcall _ hv
      split at hoperator
      · exact attains_of_sequenceOperator? howner hoperator
      · cases hoperator
    · exact confined_methodCall hcall howner hv
  · split
    -- Any other name is a member, and its type is one that the owner mentions.
    · rename_i m hfound
      apply confined_bind (confined_mentioned (memberType_of_findMember? howner hfound) hv)
      intro t u ht hu
      exact confined_pure hu ht
    · exact confined_failAt rfl

/-- What an index leads to: an element, or the result of an indexer. -/
theorem confined_elementAccess (hcall : ConfinedCalls s text call) (howner : s.Attains text owner)
    (hw : Sound s text w) :
    Confined s text (elementAccess s call owner) (s.Holds text) w := by
  apply confined_look
  apply confined_bind (confined_expect hw rfl)
  intro _ v _ hv
  apply confined_bind (confined_arguments hcall hv)
  intro read v _ hv
  apply confined_bind (confined_expect hv rfl)
  intro _ v _ hv
  dsimp only
  split
  · rename_i i hselected
    obtain ⟨parameters, hmem⟩ := mem_of_selectOverload hselected
    obtain ⟨other, hother, heq⟩ := List.mem_map.1 hmem
    cases heq
    apply confined_map (confined_mentioned (memberType_of_mem_findIndexers howner hother) hv)
    exact fun _ ht => ht
  · exact confined_failAt rfl

/-! ## §3. Names of types. -/

/-- The type whose name is found ahead is accessible, and the place of its last word is on the text. -/
theorem attains_of_namesFrom {last c : Cursor} (h : NamesFrom s n c t last) (hc : OnText text c) :
    s.Attains text t ∧ OnText text last := by
  induction h with
  | last hdot _ hword _ hfound => exact ⟨within_accessible hfound, (hc.next hdot).next hword⟩
  | again hdot _ hword _ _ ih => exact ih ((hc.next hdot).next hword)

/-- Looking for the name of a type fails only by what the lexer says. -/
theorem isPlain_of_qualifiedType? {c : Cursor} {budget : Nat} {fault : Fault}
    (h : qualifiedType? s n c budget = .error fault) : fault.cause.isPlain = true := by
  induction budget generalizing n c with
  | zero =>
    cases h
    rfl
  | succ budget ih =>
    rw [qualifiedType?_succ] at h
    split at h
    · rename_i hstep
      cases h
      rcases nameStep_eq_error hstep with hdot | ⟨_, -, hword⟩
      · exact Cursor.isPlain_of_next hdot
      · exact Cursor.isPlain_of_next hword
    · cases h
    · exact ih h

/-- A word that is the name of a type is that of one which every text may name. -/
theorem attains_of_wordType? (h : wordType? s n = some t) : s.Attains text t := by
  unfold wordType? at h
  split at h
  · rename_i hkeyword
    cases h
    exact within_keyword hkeyword
  · exact within_accessible h

/-- **A type name at the start of an operand** is that of an accessible type. -/
theorem confined_typeName (hw : Sound s text w) :
    Confined s text (typeName s) (fun found => ∀ t, found = some t → s.Attains text t) w := by
  -- A rule that finds no name has not moved.
  have hnone : ∀ {v}, Sound s text v →
      Confined s text (pure none) (fun found => ∀ t, found = some t → s.Attains text t) v :=
    fun hv => confined_pure hv nofun
  have hsome : ∀ {v t}, Sound s text v → s.Attains text t → Confined s text (do
      advance
      pure (some t)) (fun found => ∀ t, found = some t → s.Attains text t) v := by
    intro v t hv ht
    apply confined_bind (confined_advance hv)
    intro _ u _ hu
    apply confined_pure hu
    intro other hother
    cases hother
    exact ht
  apply confined_look
  dsimp only [id]
  split
  -- A single word means a type at once; a longer name is looked up part by part.
  · rename_i t hword
    exact hsome hw (attains_of_wordType? hword)
  · split
    · apply confined_ofExceptThen isPlain_of_qualifiedType?
      intro found hfound
      cases found with
      | none => exact hnone hw
      | some found =>
        obtain ⟨ht, hlast⟩ := attains_of_namesFrom (namesFrom_of_qualifiedType? hfound) hw.cursor
        apply confined_editThen
        exact hsome (hw.moved hlast) ht
    · exact hnone hw

/-- After the name of a type stands a static member, a constructor or nothing. -/
theorem confined_typeAccess (hcall : ConfinedCalls s text call) (ht : s.Attains text t)
    (hw : Sound s text w) :
    Confined s text (typeAccess s call t start) (s.Holds text) w := by
  apply confined_look
  split
  · apply confined_bind (confined_argumentList hcall hw)
    intro read v _ hv
    exact confined_ofExcept hv (fun a ha => within_construct ht ha) isPlain_of_construct
  · apply confined_bind (confined_advance hw)
    intro _ v _ hv
    exact confined_memberAccess hcall ht hv
  · exact confined_fail rfl

theorem confined_hasMember (hw : Sound s text w) :
    Confined s text (hasMember s t n) (fun _ => True) w := by
  unfold hasMember
  dsimp only
  split
  · exact confined_pure hw trivial
  · apply confined_look
    apply confined_ofExceptThen Cursor.isPlain_of_peek
    intro next _
    exact confined_pure hw trivial

/-- A name that is looked up among all types gives one that the text names itself. -/
theorem attains_of_registered? (hwrites : Writes s.parsing.dialect text n)
    (h : registered? s n = some t) : s.Attains text t := by
  unfold registered? at h
  split at h
  · rename_i hget
    cases h
    exact .named ⟨n, hwrites, hget⟩
  · exact within_accessible h

/-- That a type is missing is excused by its name in the text. -/
theorem confined_failAt_writes {α : Type} {Q : α → Prop} (hwrites : Writes s.parsing.dialect text n) :
    Confined s text (failAt start (.typeNotFound n)) Q w := by
  have hexcused : s.MayMiss text n := .inl hwrites
  exact .failAt trivial hexcused

/-! ## §4. Keywords. -/

/-- The common type of two operands is that of one of them, possibly with a null. -/
theorem confined_unify {a b : Operand} (ha : s.Holds text a) (hb : s.Holds text b)
    (hw : Sound s text w) :
    Confined s text (ofExcept (s.registry.unify a b start)) (s.Holds text) w :=
  confined_ofExcept hw (fun _ hc => within_unify ha hb hc) isPlain_of_unify

/-- `iif` has the common type of its branches. -/
theorem confined_choice (hcall : ConfinedCalls s text call) (hw : Sound s text w) :
    Confined s text (choice s call) (s.Holds text) w := by
  apply confined_look
  apply confined_bind (confined_advance hw)
  intro _ v _ hv
  apply confined_bind (confined_argumentList hcall hv)
  intro read v hread hv
  split
  · rename_i test a b
    apply confined_ofExceptThen SequenceOperator.isPlain_of_requireBoolean
    intro _ _
    exact confined_unify (hread a (by simp)) (hread b (by simp)) hv
  · exact confined_failAt rfl

/-- `np` has the type of its operand, or the common type with the fallback. -/
theorem confined_nullPropagation (hcall : ConfinedCalls s text call) (hw : Sound s text w) :
    Confined s text (nullPropagation s call) (s.Holds text) w := by
  apply confined_look
  apply confined_bind (confined_advance hw)
  intro _ v _ hv
  apply confined_bind (confined_argumentList hcall hv)
  intro read v hread hv
  split
  · rename_i a
    exact confined_pure hv (hread a (by simp))
  · rename_i a b
    exact confined_unify (hread a (by simp)) (hread b (by simp)) hv
  · exact confined_failAt rfl

/-! ## §5. What `new` makes. -/

/-- The name after `new` stands in the text, up to a bracket. -/
theorem names_of_createdName (hw : Sound s text w) (hword : w.cursor.current.kind = .identifier) :
    Ensures createdName w (fun _ => True)
      (fun name v => Sound s text v ∧ Names w.cursor name v.cursor ∧
        v.cursor.isAny [.openParen, .openBracket, .openCurly] = true)
      fun failure _ => s.Excused text failure := by
  apply Ensures.lookThen trivial
  apply (sound_advance hw).bind
  rintro _ _ ⟨c, hnext, rfl, hv⟩
  -- Between two rounds of the loop the walk is behind the words that it has put together.
  have hloop : Ensures (repeatStep (fun name => do
      if ← isAny [.dot, .plus] then
        advance
        require .identifier .identifierExpected
        let word := plainName (← current).text
        advance
        pure (true, name ++ "." ++ word)
      else pure (false, name)) (plainName w.cursor.current.text)) (w.moved c) (fun _ => True)
      (fun name v => Sound s text v ∧ Names w.cursor name v.cursor)
      fun failure _ => s.Excused text failure := by
    apply Ensures.repeatStep (J := fun name v => Sound s text v ∧ Names w.cursor name v.cursor)
    · exact fun _ _ _ => trivial
    · exact fun _ _ _ => excused_of_fault rfl
    · intro name v ⟨hv, hname⟩
      apply Ensures.lookThen trivial
      split
      · rename_i hjoint
        -- After a dot or a plus a further word is demanded, and the name grows by it.
        have hjoint : v.cursor.current.kind = .dot ∨ v.cursor.current.kind = .plus := by
          simpa [Cursor.isAny] using hjoint
        apply (sound_advance hv).bind
        rintro _ _ ⟨d, hd, rfl, hu⟩
        apply Ensures.demandThen trivial
        · intro hk
          have hk : d.current.kind = .identifier := by simpa [Cursor.isKind] using hk
          apply Ensures.lookThen trivial
          apply (sound_advance hu).bind
          rintro _ _ ⟨e, he, rfl, ht⟩
          exact .pure trivial ⟨ht, hname.joined hjoint hd hk he⟩
        · exact fun _ => excused_of_fault rfl
      · exact .pure trivial ⟨trivial, hv, hname⟩
    · exact ⟨hv, .word hword hnext⟩
  apply hloop.bind
  intro name v ⟨hv, hname⟩
  apply Ensures.lookThen trivial
  split
  · rename_i hbracket
    exact .pure trivial ⟨hv, hname, hbracket⟩
  · exact .stopThen trivial (excused_of_fault rfl)

theorem confined_arrayMark (hw : Sound s text w) :
    Confined s text arrayMark (fun _ => True) w := by
  apply confined_look
  split
  · apply confined_bind (confined_advance hw)
    intro _ v _ hv
    apply confined_bind (confined_expect hv rfl)
    intro _ v _ hv
    apply confined_requireThen rfl
    intro _
    exact confined_pure hv trivial
  · exact confined_pure hw trivial

theorem confined_commaAfter {found : α} {Q : Bool × α → Prop} (hQ : ∀ again, Q (again, found))
    (hw : Sound s text w) : Confined s text (commaAfter found) Q w := by
  apply confined_look
  split
  · apply confined_bind (confined_advance hw)
    intro _ v _ hv
    exact confined_pure hv (hQ true)
  · exact confined_pure hw (hQ false)

/-- A member that is added is over a type that is reached. -/
theorem confined_addMember {members : List (String × Operand)} (hmembers : ∀ m ∈ members, s.Holds text m.2)
    {a : Operand} (ha : s.Holds text a) {name : Option String} (hw : Sound s text w) :
    Confined s text (addMember members start a name) (fun next => ∀ m ∈ next.2, s.Holds text m.2) w := by
  cases name with
  | none => exact confined_failAtThen rfl
  | some name =>
    have hmore : ∀ m ∈ members ++ [(name, a)], s.Holds text m.2 := by
      intro m hm
      rcases List.mem_append.1 hm with hm | hm
      · exact hmembers m hm
      · rw [List.mem_singleton.1 hm]
        exact ha
    apply confined_bind (confined_pure (Q := fun members => ∀ m ∈ members, s.Holds text m.2) hw hmore)
    intro _ v hmore hv
    exact confined_commaAfter (fun _ => hmore) hv

/-- Finding out the name of a member reaches no type. -/
theorem confined_memberName {isArray dotted : Bool} {a : Operand} {f : Option String → Typer β}
    {Q : β → Prop} (hf : ∀ name v, Sound s text v → Confined s text (f name) Q v) (hw : Sound s text w) :
    Confined s text (memberName isArray dotted a f) Q w := by
  have hname : ∀ (name : Option String) (v), True → Sound s text v → Confined s text (f name) Q v :=
    fun name v _ hv => hf name v hv
  apply confined_look
  split
  · exact confined_bind (confined_pure hw trivial) hname
  · split
    · apply confined_bind (confined_advance hw)
      intro _ v _ hv
      exact confined_bind (confined_map (confined_aliasName _ hv) fun _ _ => trivial) hname
    · exact confined_bind (confined_pure hw trivial) hname

/-- One round of the members of what is made. -/
theorem confined_createdStep (hcall : ConfinedCalls s text call) {isArray : Bool}
    {members : List (String × Operand)} (hmembers : ∀ m ∈ members, s.Holds text m.2)
    (hw : Sound s text w) :
    Confined s text (createdStep s call isArray members) (fun next => ∀ m ∈ next.2, s.Holds text m.2) w := by
  apply confined_look
  split
  · exact confined_pure hw hmembers
  · apply confined_look
    apply confined_bind (hcall conditional w hw)
    intro a v ha hv
    exact confined_memberName (fun _ _ => confined_addMember hmembers ha) hv

/-- All members of what is made are over types that are reached. -/
theorem confined_createdMembers (hcall : ConfinedCalls s text call) {isArray : Bool}
    (hw : Sound s text w) :
    Confined s text (createdMembers s call isArray)
      (fun members => ∀ m ∈ members, s.Holds text m.2) w := by
  have hnone : ∀ m ∈ ([] : List (String × Operand)), s.Holds text m.2 := nofun
  apply confined_bind (Q := fun members => ∀ m ∈ members, s.Holds text m.2)
    (confined_repeatStep hw hnone
      fun members v hmembers hv => confined_createdStep hcall hmembers hv)
  intro members v hmembers hv
  apply confined_look
  split
  · apply confined_bind (confined_advance hv)
    intro _ u _ hu
    exact confined_pure hu hmembers
  · exact confined_failThen rfl

/-- **What is made** is an array of a type that is named or found for the elements, the type that is
named, or a type of the members. -/
theorem confined_createdBody (hcall : ConfinedCalls s text call) {target : Option TypeDef}
    (htarget : ∀ t, target = some t → s.Attains text t) (hw : Sound s text w) :
    Confined s text (createdBody s call target start) (s.Holds text) w := by
  apply confined_bind (confined_arrayMark hw)
  intro isArray v _ hv
  apply confined_bind (confined_advance hv)
  intro _ v _ hv
  apply confined_bind (confined_createdMembers hcall hv)
  intro members v hmembers hv
  -- The members of an array are put together, and those of a type are its properties.
  split
  · split
    · rename_i t
      exact confined_pure hv (htarget t rfl).array
    · apply confined_ofExceptThen isPlain_of_unifyAll
      intro common hcommon
      cases common with
      | none => exact confined_pure hv (within_predefinedValue Known.object).array
      | some a =>
        have ha : s.Holds text a := by
          apply within_unifyAll _ _ hcommon
          · exact fun b hb => nomatch hb
          · intro b hb
            obtain ⟨m, hm, rfl⟩ := List.mem_map.1 hb
            exact hmembers m hm
        exact confined_pure hv ha.array
  · cases target with
    | none => exact confined_pure hv (.anonymous hmembers)
    | some t => exact confined_pure hv (htarget t rfl)

/-- **What stands after `new`** may be any type that is registered, and is written there. -/
theorem confined_creation (hcall : ConfinedCalls s text call) (hw : Sound s text w)
    (hword : w.cursor.current.kind = .identifier)
    (hnew : Text.lower (plainName w.cursor.current.text) = "new") :
    Confined s text (creation s call) (s.Holds text) w := by
  obtain ⟨past, hreaches⟩ := hw.cursor.reaches (by rw [hword]; rfl)
  apply confined_look
  apply (sound_advance hw).bind
  rintro _ _ ⟨c, hnext, rfl, hv⟩
  apply confined_look
  dsimp only
  -- After `new` a name or the bracket of an anonymous type follows.
  split
  · apply confined_look
    split
    · rename_i hname
      apply confined_look
      apply (names_of_createdName hv hname).bind
      intro name u ⟨hu, hnames, hbracket⟩
      -- The text writes this name, so it may be that of a fault and of a type.
      have hwrites : Writes s.parsing.dialect text name :=
        .created hreaches hword hnew hnext hnames hbracket
      split
      · exact confined_failAt_writes hwrites
      · rename_i t hregistered
        -- A type that is registered under a name of the text is among the attained ones.
        have ht := attains_of_registered? hwrites hregistered
        apply confined_look
        split
        · apply confined_bind (confined_argumentList hcall hu)
          intro read v _ hv
          exact confined_ofExcept hv (fun a ha => within_construct ht ha) isPlain_of_construct
        · apply confined_createdBody hcall _ hu
          intro other hother
          cases hother
          exact ht
    · exact confined_createdBody hcall nofun hv
  · exact confined_failThen rfl

/-! ## §6. Words and literals. -/

/-- A name leads to a type that may be named, or to a member of `it`. -/
theorem confined_name (hcall : ConfinedCalls s text call) {it : TypeDef} (hit : s.Attains text it)
    (hw : Sound s text w) : Confined s text (name s call it) (s.Holds text) w := by
  apply confined_look
  apply confined_bind (confined_typeName hw)
  intro found v hfound hv
  cases found with
  | some t => exact confined_typeAccess hcall (hfound t rfl) hv
  | none =>
    apply confined_bind (confined_hasMember hv)
    intro has v _ hv
    split
    · exact confined_memberAccess hcall hit hv
    · exact confined_failThen rfl

/-- A word leads to one of the scopes, to a literal, to what a keyword makes or to a name. -/
theorem confined_word (hcall : ConfinedCalls s text call) (hw : Sound s text w)
    (hword : w.cursor.current.kind = .identifier) :
    Confined s text (word s call) (s.Holds text) w := by
  -- Most words are read alone and stand for one operand.
  have hadvance : ∀ a : Operand, s.Holds text a → Confined s text (do
      advance
      pure a) (s.Holds text) w := by
    intro a ha
    apply confined_bind (confined_advance hw)
    intro _ v _ hv
    exact confined_pure hv ha
  -- The implicit operand is that of the innermost scope, or of the context.
  have hit : s.Attains text (s.it w.held) := hw.it fun _ h => h
  apply confined_scopes
  apply confined_look
  dsimp only
  split
  · exact hadvance _ hit
  -- The outer scopes have types that were attained before.
  iterate 2
    cases hheld : w.held with
    | nil => exact confined_fail rfl
    | cons scope outer =>
      apply hadvance
      apply hw.it
      intro other hother
      rw [hheld]
      exact List.mem_cons_of_mem scope hother
  iterate 2 exact hadvance _ (within_predefinedValue _)
  · exact hadvance _ (within_predefinedValue Known.object)
  · exact confined_choice hcall hw
  · exact confined_nullPropagation hcall hw
  · rename_i hnew
    exact confined_creation hcall hw hword hnew
  · split
    · rename_i scope hfound
      exact hadvance _ (hw.scopes scope (List.mem_of_find?_eq_some hfound))
    · exact confined_name hcall hit hw

/-- Literals in a row are put together up to the first token that is none. -/
theorem row_of_adjacentLiterals (hw : Sound s text w) (hliteral : w.cursor.current.kind = .stringLiteral) :
    Ensures (adjacentLiterals w.cursor.current.text) w (fun _ => True)
      (fun joined v => Sound s text v ∧ v.cursor.current.kind ≠ .stringLiteral ∧
        ∃ last, Row w.cursor joined last v.cursor) fun failure _ => s.Excused text failure := by
  apply (sound_advance hw).bind
  rintro _ _ ⟨c, hnext, rfl, hv⟩
  -- Between two rounds of the loop the walk is behind the literals that it has put together.
  apply Ensures.repeatStep
    (J := fun joined v => Sound s text v ∧ ∃ last, Row w.cursor joined last v.cursor)
  · exact fun _ _ _ => trivial
  · exact fun _ _ _ => excused_of_fault rfl
  · intro joined v ⟨hv, last, hrow⟩
    apply Ensures.lookThen trivial
    split
    · rename_i hkind
      apply (sound_advance hv).bind
      rintro _ _ ⟨d, hd, rfl, hu⟩
      exact .pure trivial ⟨hu, v.cursor, hrow.more hkind hd⟩
    -- A token of another kind ends the row.
    · rename_i hkind
      exact .pure trivial ⟨trivial, hv, hkind, last, hrow⟩
  · exact ⟨hv, w.cursor, .single hliteral hnext⟩

/-- **A text of several literals** is not closed only if its first and its last literal are quoted
otherwise. -/
theorem confined_joinedText (hw : Sound s text w) (hliteral : w.cursor.current.kind = .stringLiteral)
    (hquote : w.cursor.current.text.toList.head? ≠ some '\'') :
    Confined s text (joinedText s w.cursor.current) (s.Holds text) w := by
  obtain ⟨past, hreaches⟩ := hw.cursor.reaches (by rw [hliteral]; rfl)
  apply (row_of_adjacentLiterals hw hliteral).bind
  intro joined v ⟨hv, hend, last, hrow⟩
  apply Ensures.ofExceptThen trivial
  · intro fault hvalue
    rcases Literal.plain_or_mixedRow_of_value hrow hreaches hquote hend hvalue with hplain | ⟨rfl, hmixed⟩
    · exact excused_of_fault hplain
    · exact ⟨w.cursor, v.cursor, hmixed, rfl⟩
  · intro _ _
    exact confined_pure hv (within_predefinedValue _)

/-- **A literal before a parenthesis** may name any type that is registered. -/
theorem confined_construction (hcall : ConfinedCalls s text call)
    (hwrites : Writes s.parsing.dialect text n) (hw : Sound s text w) :
    Confined s text (construction s call n start) (s.Holds text) w := by
  apply confined_bind (confined_argumentList hcall hw)
  intro read v _ hv
  split
  · rename_i t hregistered
    have ht := attains_of_registered? hwrites hregistered
    exact confined_ofExcept hv (fun a ha => within_construct ht ha) isPlain_of_construct
  · exact confined_failAt_writes hwrites

/-- What follows the looks behind a literal, given the token behind it and the one that may be a
parenthesis. -/
theorem confined_textRest (hcall : ConfinedCalls s text call) (hw : Sound s text w)
    (hliteral : w.cursor.current.kind = .stringLiteral) {next ahead : Cursor}
    (hnext : w.cursor.next = .ok next) (hahead : OnText text ahead)
    (hopens : ahead.current.kind = .openParen → OpensCast next) :
    Confined s text (textRest s call w.cursor.current ahead) (s.Holds text) w := by
  obtain ⟨past, hreaches⟩ := hw.cursor.reaches (by rw [hliteral]; rfl)
  apply confined_ofExceptThen (Literal.isPlain_of_value hreaches hliteral)
  intro value hvalue
  -- A literal of one character is no text to be joined.
  split
  · dsimp only
    split
    · exact confined_failThen rfl
    · apply confined_bind (confined_advance hw)
      intro _ v _ hv
      exact confined_pure hv (within_predefinedValue _)
  · rename_i hquote
    split
    -- A quoted type name before a bracket is a conversion, which names that type.
    · rename_i hparen
      have hwrites : Writes s.parsing.dialect text value :=
        .cast hreaches hliteral hquote hnext (hopens hparen) hvalue
      exact confined_editThen (confined_construction hcall hwrites (hw.moved hahead))
    · exact confined_joinedText hw hliteral hquote

/-- A string literal is a string, a character, or the name of a type that the text writes. -/
theorem confined_text (hcall : ConfinedCalls s text call) (hw : Sound s text w)
    (hliteral : w.cursor.current.kind = .stringLiteral) :
    Confined s text (Rule.text s call) (s.Holds text) w := by
  rw [text_eq]
  apply confined_look
  apply confined_ofExceptThen Cursor.isPlain_of_next
  intro next hnext
  have hon := hw.cursor.next hnext
  unfold pastQuestion
  dsimp only [id]
  split
  · rename_i hquestion
    apply confined_ofExceptThen Cursor.isPlain_of_next
    intro ahead hahead
    exact confined_textRest hcall hw hliteral hnext (hon.next hahead) fun hparen =>
      .inr ⟨hquestion, ahead, hahead, hparen⟩
  · apply Ensures.pureThen trivial
    exact confined_textRest hcall hw hliteral hnext hon .inl

/-- A number of no type is one that the text writes. -/
theorem confined_number {typeOf? : String → Option String} {form : Form} {invalid : String → Cause}
    (hinvalid : typeOf? w.cursor.current.text = none →
      s.Excused text (.fault (w.cursor.fault (invalid w.cursor.current.text)))) (hw : Sound s text w) :
    Confined s text (number typeOf? form invalid) (s.Holds text) w := by
  apply confined_look
  split
  · rename_i hnone
    exact .fail trivial (hinvalid hnone)
  · apply confined_bind (confined_advance hw)
    intro _ v _ hv
    exact confined_pure hv (within_predefinedValue _)

/-- The rule for an operand without what is attached to it. -/
theorem confined_primary (hcall : ConfinedCalls s text call) (hw : Sound s text w) :
    Confined s text (primary s call) (s.Holds text) w := by
  apply confined_look
  split
  -- What begins an operand is told by the kind of its first token.
  · rename_i hkind
    exact confined_word hcall hw hkind
  · rename_i hkind
    exact confined_text hcall hw hkind
  · rename_i hkind
    refine confined_number (fun hnone => ⟨?_, hnone⟩) hw
    exact hkind ▸ hw.cursor.writesNumber (hkind ▸ rfl)
  · rename_i hkind
    refine confined_number (fun hnone => ⟨?_, hnone⟩) hw
    exact hkind ▸ hw.cursor.writesNumber (hkind ▸ rfl)
  · apply confined_bind (confined_advance hw)
    intro _ v _ hv
    apply confined_bind (hcall conditional v hv)
    intro inner v hinner hv
    apply confined_bind (confined_expect hv rfl)
    intro _ u _ hu
    exact confined_pure hu hinner
  · exact confined_fail rfl

/-- A loop, of which it is kept that the operand so far is over a type that is reached. -/
theorem confined_attached (hcall : ConfinedCalls s text call) {a : Operand}
    (ha : s.Holds text a) (hw : Sound s text w) :
    Confined s text (attached s call a) (s.Holds text) w := by
  apply confined_repeatStep hw ha
  intro a v ha hv
  apply confined_look
  split
  · apply confined_bind (confined_advance hv)
    intro _ v _ hv
    apply confined_bind (confined_memberAccess hcall ha hv)
    intro member u hmember hu
    exact confined_pure hu hmember
  · rename_i hkind
    exact confined_refuse hv hkind
  · apply confined_bind (confined_elementAccess hcall ha hv)
    intro element u helement hu
    exact confined_pure hu helement
  · exact confined_pure hv ha

/-! ## §7. Operators. -/

/-- What operators make of operands are predefined types or those of the operands. -/
theorem confined_chain (hcall : ConfinedCalls s text call) {rule : Rule} {isOperator : Cursor → Bool}
    (hw : Sound s text w) :
    Confined s text (chain s call rule isOperator) (s.Holds text) w := by
  apply confined_bind (hcall rule w hw)
  intro first v hfirst hv
  apply confined_repeatStep hv hfirst
  intro left v hleft hv
  apply confined_look
  dsimp only [id]
  split
  · apply confined_look
    apply confined_bind (confined_advance hv)
    intro _ v _ hv
    apply confined_bind (hcall rule v hv)
    intro right v _ hv
    apply confined_ofExceptThen isPlain_of_operate
    intro both hboth
    exact confined_pure hv (within_operate hleft hboth)
  · exact confined_pure hv hleft

/-- The elements of a list after `in` are only compared. -/
theorem confined_containerList (hcall : ConfinedCalls s text call) {operator : Token} {left : Operand}
    (hw : Sound s text w) :
    Confined s text (containerList s call operator left) (fun _ => True) w := by
  apply confined_bind (Q := fun _ => True)
  · apply confined_repeatStep hw trivial
    intro _ v _ hv
    apply confined_bind (confined_advance hv)
    intro _ v _ hv
    apply confined_bind (hcall unary v hv)
    intro element v _ hv
    apply confined_ofExceptThen isPlain_of_contained
    intro _ _
    -- A comma goes on with another element, and the bracket ends the list.
    apply confined_look
    split
    · exact confined_pure hv trivial
    · exact confined_pure hv trivial
    · exact confined_failAt rfl
    · exact confined_fail rfl
  · intro _ v _ hv
    exact confined_advance hv

/-- The operator of a containment is one token, or two of which the second one is `in`. -/
theorem confined_pastOperator (isNegated : Bool) (position : Nat) {x : Typer Unit}
    (hw : Sound s text w)
    (hx : ∀ v, Sound s text v → Confined s text x (fun _ => True) v) :
    Confined s text (pastOperator isNegated position x) (fun _ => True) w := by
  have hrest : ∀ {v}, Sound s text v → Confined s text (do
      advance
      x) (fun _ => True) v := by
    intro v hv
    apply confined_bind (confined_advance hv)
    intro _ v _ hv
    exact hx v hv
  unfold pastOperator
  -- With `not` a further word has to follow before the operator.
  split
  · apply confined_bind (confined_advance hw)
    intro _ v _ hv
    apply confined_look
    split
    · exact hrest hv
    · exact confined_failAtThen rfl
  · exact hrest hw

/-- What `in` is followed by is only compared. -/
theorem confined_contained (hcall : ConfinedCalls s text call) {operator : Token} {left : Operand}
    (hw : Sound s text w) : Confined s text (contained s call operator left) (fun _ => True) w := by
  apply confined_look
  split
  · exact confined_containerList hcall hw
  · apply confined_bind (hcall operand w hw)
    intro sequence v _ hv
    split
    · exact confined_failAt rfl
    · exact confined_ofExcept hv (fun _ _ => trivial) isPlain_of_contained
  · exact confined_failAt rfl

/-- The sequence after `in` is only compared. -/
theorem confined_container (hcall : ConfinedCalls s text call) {left : Operand} (hw : Sound s text w) :
    Confined s text (container s call left) (fun _ => True) w := by
  rw [container_eq]
  apply confined_look
  exact confined_pastOperator _ _ hw fun _ => confined_contained hcall

/-- The result of `in` is boolean, or the operand without it. -/
theorem confined_containment (hcall : ConfinedCalls s text call) (hw : Sound s text w) :
    Confined s text (body s call containment) (s.Holds text) w := by
  apply confined_bind (hcall bitwise w hw)
  intro first v hfirst hv
  apply confined_repeatStep hv hfirst
  intro left v hleft hv
  apply confined_look
  dsimp only [id]
  split
  · apply confined_bind (confined_container hcall hv)
    intro _ u _ hu
    exact confined_pure hu (within_predefinedValue _)
  · exact confined_pure hv hleft

/-- A prefix operator keeps the type of its operand or lifts it. -/
theorem confined_unary (hcall : ConfinedCalls s text call) (hw : Sound s text w) :
    Confined s text (body s call unary) (s.Holds text) w := by
  apply confined_nested hw
  intro w hw
  apply confined_look
  apply confined_look
  split
  · apply confined_look
    apply Ensures.bind (sound_advance hw)
    rintro _ _ ⟨c, hnext, rfl, hv⟩
    apply confined_look
    split
    -- The folded minus belongs to the number, so it is still written in the text.
    · rename_i hnegated
      simp only [Bool.and_eq_true, decide_eq_true_eq] at hnegated
      apply confined_editThen
      exact hcall operand _ (hv.moved (hw.cursor.take_minus hnegated.1 hnext hnegated.2))
    · apply confined_bind (hcall unary _ hv)
      intro a v _ hv
      exact confined_ofExcept hv (fun _ hb => within_operateUnary hb) isPlain_of_operateUnary
  · exact hcall operand w hw

/-! ## §8. Every rule. -/

/-- A conditional has the common type of its branches. -/
theorem confined_conditional (hcall : ConfinedCalls s text call) (hw : Sound s text w) :
    Confined s text (body s call conditional) (s.Holds text) w := by
  apply confined_nested hw
  intro w hw
  apply confined_look
  apply confined_bind (hcall coalescing w hw)
  intro test v htest hv
  apply confined_look
  -- With `?` two branches are read and their common type is that of the rule.
  split
  · apply confined_ofExceptThen SequenceOperator.isPlain_of_requireBoolean
    intro _ _
    apply confined_look
    apply confined_bind (confined_advance hv)
    intro _ v _ hv
    apply confined_bind (hcall conditional v hv)
    intro a v ha hv
    apply confined_bind (confined_expect hv rfl)
    intro _ v _ hv
    apply confined_bind (hcall conditional v hv)
    intro b v hb hv
    exact confined_unify ha hb hv
  · exact confined_pure hv htest

/-- `??` has the common type of its operands. -/
theorem confined_coalescing (hcall : ConfinedCalls s text call) (hw : Sound s text w) :
    Confined s text (body s call coalescing) (s.Holds text) w := by
  apply confined_bind (hcall projection w hw)
  intro left v hleft hv
  apply confined_look
  split
  · apply confined_look
    apply confined_bind (confined_advance hv)
    intro _ v _ hv
    apply confined_bind (hcall conditional v hv)
    intro right v hright hv
    -- Whichever operand gives the type, it is a confined one; else the two do not fit.
    repeat' split
    · exact confined_pure hv hright
    · exact confined_pure hv hleft
    · exact confined_pure hv hright
    · apply confined_ofExcept hv nofun
      intro fault h
      cases h
      rfl
  · exact confined_pure hv hleft

/-- The rule for an operand with what is attached to it. -/
theorem confined_projection (hcall : ConfinedCalls s text call) (hw : Sound s text w) :
    Confined s text (body s call projection) (s.Holds text) w := by
  apply confined_bind (hcall disjunction w hw)
  intro left v hleft hv
  apply confined_look
  dsimp only
  split
  · exact confined_failThen rfl
  · exact confined_pure hv hleft

/-- A rule is confined if the rules that it calls are. -/
theorem confined_body (hcall : ConfinedCalls s text call) : ConfinedCalls s text (body s call) := by
  intro r w hw
  cases r with
  | conditional => exact confined_conditional hcall hw
  | coalescing => exact confined_coalescing hcall hw
  | projection => exact confined_projection hcall hw
  | disjunction => exact confined_chain hcall hw
  | conjunction => exact confined_chain hcall hw
  | containment => exact confined_containment hcall hw
  | bitwise => exact confined_chain hcall hw
  | comparison => exact confined_chain hcall hw
  | shift => exact confined_chain hcall hw
  | sum => exact confined_chain hcall hw
  | product => exact confined_chain hcall hw
  | unary => exact confined_unary hcall hw
  | operand =>
    apply confined_bind (confined_primary hcall hw)
    intro first v hfirst hv
    exact confined_attached hcall hfirst hv

/-- **Every rule is confined**, with any budget. -/
theorem confined_run (s : Setting) (text : List Char) (budget : Nat) :
    ConfinedCalls s text (run s budget) := by
  induction budget with
  | zero => exact fun r w hw => confined_fail rfl
  | succ budget ih => exact confined_body ih

end Rule

/-! ## §9. Texts. -/

section

variable {s : Setting} {text : String} {t : TypeDef}

/-- What the walk of a text comes to. -/
theorem compile_cases (s : Setting) (text : String) :
    match s.compile text with
    | .ok t => s.Attains text.toList t
    | .error failure => s.Excused text.toList failure := by
  unfold Setting.compile
  cases hopen : Cursor.open? text.toList with
  | error fault => exact excused_of_fault (Cursor.isPlain_of_read hopen)
  | ok c =>
    -- Where the walk starts, nothing has been read and no scope is open.
    have hsound : Sound s text.toList ⟨c, 0, []⟩ := ⟨.read (.first hopen), nofun⟩
    have hrun := Rule.confined_run s text.toList Rule.budget .conditional _ hsound
    dsimp only
    unfold Setting.typeOf
    cases hrule : (Rule.run s Rule.budget .conditional).run ⟨c, 0, []⟩ with
    | error failure w => exact hrun.error hrule
    | ok a w =>
      dsimp only
      -- A walk that stops before the end of the text is a fault of its own.
      by_cases hfinish : w.cursor.current.isFinish = true
      · rw [if_pos hfinish]
        exact (hrun.ok hrule).1
      · rw [if_neg hfinish]
        exact excused_of_fault rfl

/-- **The type of a text is one that is reached** from its context and from the types that it names
itself, after `new` or in a literal before a parenthesis; these are all types that are registered.  If
the text names no others than are reached without it, its type is reached without it too. -/
theorem compile_within (h : s.compile text = .ok t) :
    s.registry.Within s.context (s.Named text.toList) t ∧
      ((∀ u, s.Named text.toList u → s.registry.Within s.context (fun _ => False) u) →
        s.registry.Within s.context (fun _ => False) t) := by
  have hattains : s.Attains text.toList t := by
    have := compile_cases s text
    rwa [h] at this
  exact ⟨hattains, fun hnamed => hattains.of_named hnamed⟩

/-- A type that no expression may name, which is made by its name. -/
theorem compile_within_of_created :
    let secret : TypeDef := { name := "Secret", space := "Shop" }
    let s : Setting := ⟨.performAll .empty [.register secret], {}, Predefined.objectType⟩
    s.compile "new Shop.Secret \x7b\x7d" = .ok secret ∧
      s.registry.findAccessible? "Shop.Secret" (some s.context) = none ∧
      s.registry.Within s.context (s.Named "new Shop.Secret \x7b\x7d".toList) secret :=
  let s : Setting :=
    ⟨.performAll .empty [.register { name := "Secret", space := "Shop" }], {}, Predefined.objectType⟩
  have h : s.compile "new Shop.Secret \x7b\x7d" = .ok { name := "Secret", space := "Shop" } := rfl
  ⟨h, by decide +kernel, (compile_within h).1⟩

end

end TypeAhead.Typing
