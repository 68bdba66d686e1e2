/-
  TypeAhead.Proofs.Typing.SameType — THE SAME TOKENS HAVE THE SAME TYPE.

  Every rule of typing does alike where two texts have the same tokens, given that
  its calls do.  Budgets are spent on calls in the same way, so nothing has to be
  known of how many there are.

      alike_afterFirst    the rest of a rule, given its calls
      alike_body          the bodies of all rules
      alike_run           every rule, with the same budget
-/
import TypeAhead.Proofs.Typing.Alike
import TypeAhead.Proofs.Typing.Parts

namespace TypeAhead.Typing

open Walker Twins

variable {p : Twins} {α β : Type}

/-! ## §1. Arguments and members. -/

namespace Rule

variable {s : Setting} {call : Rule → Typer Operand}

/-- The calls of a body do alike in both texts. -/
def AlikeCalls (p : Twins) (call : Rule → Typer Operand) : Prop := ∀ r, Alike p (call r) (call r)

/-- An argument: the word `out` is discarded in both texts, or an expression is called for. -/
theorem alike_argument (hcall : AlikeCalls p call) : Alike p (argument call) (argument call) :=
  alike_bind alike_discardedOut fun found => by
    split
    · exact alike_pure _
    · exact hcall conditional

/-- A round that goes on past a token of a kind. -/
theorem alikeRound_ofKind {kind : TokenKind} (hkind : kind ≠ .finish) {f g : Unit → Typer (Bool × β)}
    (hf : Alike p (f ()) (g ())) (b : β) :
    AlikeRound p (do if (← Walker.kind) = kind then (do advance >>= f) else pure (false, b))
      (do if (← Walker.kind) = kind then (do advance >>= g) else pure (false, b)) := by
  refine alikeRound_look (fun _ _ hk _ => hk) fun {depth n w v} h => ?_
  split
  · rename_i hk
    exact alikeRound_advance hf h (by simpa [Token.isFinish, hk] using hkind)
  · exact (alikeRound_stop b).same h

/-- Arguments between commas. -/
theorem alike_arguments (hcall : AlikeCalls p call) : Alike p (arguments call) (arguments call) :=
  alike_bind (alike_argument hcall) fun _ => alike_repeatStep (fun read =>
    alikeRound_ofKind (by decide) (alike_bind (alike_argument hcall) fun next => alike_pure _) read) _

/-- What stands in parentheses, which may be nothing, and what follows it. -/
theorem alike_inParentheses {inner inner' : Typer (List Operand)} {f g : List Operand → Typer β}
    (hinner : Alike p inner inner') (hf : ∀ read, Alike p (f read) (g read)) :
    Alike p (inParentheses inner f) (inParentheses inner' g) := by
  have hrest : ∀ read : List Operand, Alike p (do
      expect .closeParen .closeParenOrCommaExpected
      f read) (do
      expect .closeParen .closeParenOrCommaExpected
      g read) := fun read => alike_bind (alike_expect (by decide) _) fun _ => hf read
  refine alike_bind (alike_expect (by decide) _) fun _ => alike_bind alike_kind fun kind => ?_
  dsimp only
  split
  · exact alike_bind (alike_pure _) hrest
  · exact alike_bind hinner hrest

theorem alike_argumentList (hcall : AlikeCalls p call) :
    Alike p (argumentList call) (argumentList call) :=
  alike_inParentheses (alike_arguments hcall) alike_pure

/-- The next token is the same, if there is one. -/
theorem agree_peek {n : Nat} {c d : Cursor} (h : p.alike n c d) :
    Agree p.place (SameToken p) c.peek d.peek := by
  have hnext := agree_next h
  unfold Cursor.peek
  generalize c.next = e at hnext
  generalize d.next = e' at hnext
  cases hnext with
  | ok h =>
    obtain ⟨m, h, -⟩ := h
    exact .ok (sameToken_of_alike h)
  | error hcause hplace => exact .error hcause hplace

/-- What follows a look at the next token. -/
theorem alike_peek {f g : Token → Typer β} (hf : ∀ t t', SameToken p t t' → Alike p (f t) (g t')) :
    Alike p (cursor >>= fun c => ofExcept c.peek >>= f) (cursor >>= fun c => ofExcept c.peek >>= g) :=
  ⟨fun h => same_ofExceptThen h (agree_peek h.alike) fun t t' ht => (hf t t' ht).same h⟩

/-- The parameter of a body is found by looking ahead, at tokens only. -/
theorem alike_bodyParameter : Alike p bodyParameter bodyParameter := by
  refine ⟨fun {depth n w v} h => ?_⟩
  -- The rule looks at the place itself, so both walks are written out.
  show p.Same Eq depth (Within n)
    ((if w.cursor.current.kind = .identifier then (do
        let next ← ofExcept w.cursor.peek
        if next.kind = .arrow then
          advance
          advance
          pure (some (plainName w.cursor.current.text))
        else pure none)
      else pure none : Typer (Option String)).run w)
    ((if v.cursor.current.kind = .identifier then (do
        let next ← ofExcept v.cursor.peek
        if next.kind = .arrow then
          advance
          advance
          pure (some (plainName v.cursor.current.text))
        else pure none)
      else pure none : Typer (Option String)).run v)
  rw [p.kind_eq h.alike, p.text_eq h.alike]
  split
  · refine same_ofExceptThen h (agree_peek h.alike) fun t t' ht => ?_
    rw [ht.kind_eq]
    split
    · exact (alike_bind alike_advance fun _ => alike_bind alike_advance fun _ => alike_pure _).same h
    · exact (alike_pure none).same h
  · exact (alike_pure none).same h

/-- The body of a sequence operator, in a scope over the elements. -/
theorem alike_sequenceBody (hcall : AlikeCalls p call) (element : TypeDef) :
    Alike p (sequenceBody call element) (sequenceBody call element) := by
  have hrest : Alike p (do
      let parameter ← bodyParameter
      inScope ⟨element, parameter⟩ (call conditional)) (do
      let parameter ← bodyParameter
      inScope ⟨element, parameter⟩ (call conditional)) :=
    alike_bind alike_bodyParameter fun parameter => alike_inScope _ (hcall conditional)
  refine alike_bind alike_scopes fun scopes => ?_
  dsimp only
  split
  · exact alike_bind (alike_fail _) fun _ => hrest
  · exact hrest

/-- What a sequence operator is called with: a body, or arguments. -/
theorem alike_calledWith (hcall : AlikeCalls p call) (o : SequenceOperator) (element : TypeDef) :
    Alike p (calledWith call o element) (calledWith call o element) := by
  unfold calledWith
  split
  · exact alike_map (alike_sequenceBody hcall element)
  · exact alike_arguments hcall

/-- A call of a sequence operator. -/
theorem alike_sequenceCall (hcall : AlikeCalls p call) (o : SequenceOperator) (element : TypeDef)
    (name : String) :
    Alike p (sequenceCall s call o element name) (sequenceCall s call o element name) := by
  rw [sequenceCall_eq]
  exact alike_position fun a b hplace => alike_inParentheses (alike_calledWith hcall o element)
    fun read => alike_ofExcept (agree_result _ o name element read hplace)

/-- Whether the name of a type is known does not depend on the text. -/
theorem alike_mentioned (name : String) {a b : Nat} (h : p.place a b) :
    Alike p (mentioned s name a) (mentioned s name b) := by
  unfold mentioned
  split
  · exact alike_pure _
  · exact alike_failAt h

/-- A call of a method, whose overloads are the same. -/
theorem alike_methodCall (hcall : AlikeCalls p call) (owner : TypeDef) (methods : List Method)
    (name : String) {a b : Nat} (h : p.place a b) :
    Alike p (methodCall s call owner methods name a) (methodCall s call owner methods name b) := by
  refine alike_bind (alike_argumentList hcall) fun read => ?_
  split
  · exact alike_map (alike_mentioned _ h)
  · exact alike_failAt h

/-- What a name is after a dot: a sequence operator, a property or field, or a method. -/
theorem alike_memberAccess (hcall : AlikeCalls p call) (owner : TypeDef) (binding : Binding) :
    Alike p (memberAccess s call owner binding) (memberAccess s call owner binding) := by
  refine alike_bind (alike_require _ _) fun _ => alike_current fun t t' ht => ?_
  rw [ht.text_eq]
  refine alike_bind alike_advance fun _ => alike_bind alike_kind fun kind => ?_
  split
  · simp only
    split
    · exact alike_sequenceCall hcall _ _ _
    · exact alike_methodCall hcall owner _ _ ht.start_eq
  · split
    · exact alike_bind (alike_mentioned _ ht.start_eq) fun _ => alike_pure _
    · exact alike_failAt ht.start_eq

/-- An element is past the bracket at which it starts. -/
theorem alikePast_elementAccess (hcall : AlikeCalls p call) (owner : TypeDef) :
    AlikePast p (elementAccess s call owner) (elementAccess s call owner) := by
  refine alikePast_position fun a b hplace => alikePast_bind (alikePast_expect (by decide) _) fun _ =>
    alike_bind (alike_arguments hcall) fun read => alike_bind (alike_expect (by decide) _) fun _ => ?_
  dsimp only
  split
  · exact alike_map (alike_mentioned _ hplace)
  · exact alike_failAt hplace

/-! ## §2. Names. -/

/-- A kind that the end of a text does not have. -/
theorem isFinish_of_holds (test : TokenKind → Prop) {t : Token} (h : test t.kind)
    (hfinish : ¬ test .finish) : t.isFinish = false := by
  refine Bool.eq_false_iff.2 fun ht => hfinish ?_
  have ht : t.kind = .finish := Token.isFinish_iff.1 ht
  exact ht ▸ h

/-- A step over a joint and a word, after which less of the texts is left. -/
theorem agree_nameStep (qualified : String) {n : Nat} {c d : Cursor} (h : p.alike n c d) :
    Agree p.place (StepsAlike fun word word' => ∃ m, m < n ∧ p.alike m word word')
      (nameStep s qualified c) (nameStep s qualified d) := by
  have hdot := agree_next h
  rw [nameStep_eq, nameStep_eq]
  generalize c.next = e at hdot
  generalize d.next = e' at hdot
  cases hdot with
  | error hcause hplace => exact .error hcause hplace
  | @ok dot dot' hdot =>
    obtain ⟨m, hdot, hm, -⟩ := hdot
    dsimp only
    rw [p.kind_eq hdot]
    split
    · exact .ok .none
    · rename_i hjoint
      -- A joint is not the end of the text, so less is ahead behind it.
      have hfinish : dot.current.isFinish = false :=
        isFinish_of_holds (fun k => ¬ (k ≠ .dot && k ≠ .plus) = true) hjoint (by decide)
      have hword := agree_next hdot
      generalize dot.next = e at hword
      generalize dot'.next = e' at hword
      cases hword with
      | error hcause hplace => exact .error hcause hplace
      | @ok word word' hword =>
        obtain ⟨j, hword, -, hj⟩ := hword
        exact .ok (stepsAlike_wordStep s qualified (p.kind_eq hword) (p.text_eq hword)
          ⟨j, Nat.lt_of_lt_of_le (hj hfinish) hm, hword⟩)

/-- A name of several words is looked up word by word. -/
theorem agree_qualifiedType? (qualified : String) {n k k' : Nat} {c d : Cursor} (h : p.alike n c d)
    (hk : n < k) (hk' : n < k') :
    Agree p.place (fun a b => (a = none ∧ b = none) ∨ ∃ t e e' m, a = some (t, e) ∧ b = some (t, e') ∧
        m ≤ n ∧ p.alike m e e') (qualifiedType? s qualified c k) (qualifiedType? s qualified d k') := by
  -- By induction on the budget, which is above what is ahead on either side.
  induction k generalizing k' n c d qualified with
  | zero => exact absurd hk (Nat.not_lt_zero n)
  | succ k ih =>
    obtain _ | k' := k'
    · exact absurd hk' (Nat.not_lt_zero n)
    have hstep := agree_nameStep (s := s) qualified h
    rw [qualifiedType?_succ, qualifiedType?_succ]
    generalize nameStep s qualified c = e at hstep
    generalize nameStep s qualified d = e' at hstep
    cases hstep with
    | error hcause hplace => exact .error hcause hplace
    | ok hstep =>
      cases hstep with
      | none => exact .ok (.inl ⟨rfl, rfl⟩)
      | found hword =>
        obtain ⟨m, hm, hword⟩ := hword
        exact .ok (.inr ⟨_, _, _, m, rfl, rfl, Nat.le_of_lt hm, hword⟩)
      | again hword =>
        obtain ⟨m, hm, hword⟩ := hword
        refine Agree.imp (ih _ hword (by omega) (by omega)) ?_
        rintro _ _ (hnone | ⟨t, a, b, i, ha, hb, hi, hab⟩)
        · exact .inl hnone
        · exact .inr ⟨t, a, b, i, ha, hb, by omega, hab⟩

/-- How far a name is read as that of a type depends on its words. -/
theorem alike_typeName : Alike p (typeName s) (typeName s) := by
  refine ⟨fun {depth n w v} h => same_look (f := id) ?_⟩
  dsimp only [id]
  rw [p.text_eq h.alike]
  split
  · exact (alike_bind alike_advance fun _ => alike_pure _).same h
  · split
    · obtain ⟨hsize, hsize'⟩ := p.le_size h.alike
      have hk : n < w.cursor.size + 2 := by omega
      have hk' : n < v.cursor.size + 2 := by omega
      refine same_ofExceptThen h (agree_qualifiedType? _ h.alike hk hk') ?_
      rintro _ _ (⟨rfl, rfl⟩ | ⟨t, last, last', m, rfl, rfl, hm, hlast⟩)
      · exact (alike_pure none).same h
      · refine same_editThen h hlast fun w' v' _ h' => ?_
        exact ((alike_bind alike_advance fun _ => alike_pure _).same h').within hm
    · exact (alike_pure none).same h

/-- What stands after the name of a type. -/
theorem alike_typeAccess (hcall : AlikeCalls p call) (t : TypeDef) {a b : Nat} (h : p.place a b) :
    Alike p (typeAccess s call t a) (typeAccess s call t b) := by
  refine alike_bind alike_kind fun kind => ?_
  split
  · exact alike_bind (alike_argumentList hcall) fun read =>
      alike_ofExcept (agree_construct _ t read h)
  · exact alike_bind alike_advance fun _ => alike_memberAccess hcall t _
  · exact alike_fail _

/-- Whether a name is a member, for which the token after it is looked at. -/
theorem alike_hasMember (t : TypeDef) (name : String) :
    Alike p (hasMember s t name) (hasMember s t name) := by
  unfold hasMember
  dsimp only
  split
  · exact alike_pure _
  · refine alike_peek fun t t' ht => ?_
    rw [ht.kind_eq]
    exact alike_pure _

/-! ## §3. Keywords. -/

/-- The three operands of `iif`. -/
theorem alike_choice (hcall : AlikeCalls p call) : Alike p (choice s call) (choice s call) := by
  refine alike_position fun a b hplace => alike_bind alike_advance fun _ =>
    alike_bind (alike_argumentList hcall) fun read => ?_
  split
  · exact alike_bind (alike_ofExcept (agree_requireBoolean _ hplace)) fun _ =>
      alike_ofExcept (agree_unify _ _ _ hplace)
  · exact alike_failAt hplace

/-- The one or two operands of `np`. -/
theorem alike_nullPropagation (hcall : AlikeCalls p call) :
    Alike p (nullPropagation s call) (nullPropagation s call) := by
  refine alike_position fun a b hplace => alike_bind alike_advance fun _ =>
    alike_bind (alike_argumentList hcall) fun read => ?_
  split
  · exact alike_pure _
  · exact alike_ofExcept (agree_unify _ _ _ hplace)
  · exact alike_failAt hplace

/-- What stands between brackets, or ends the rule. -/
theorem alike_createdName : Alike p createdName createdName := by
  refine alike_current fun t t' ht => ?_
  rw [ht.text_eq]
  refine alike_bind alike_advance fun _ => alike_bind (alike_repeatStep (fun name => ?_) _)
    fun name => alike_bind alike_isAny fun b => ?_
  · refine alikeRound_look (Fragment.readsToken_isAny _) fun h => ?_
    split
    · rename_i hjoint
      refine alikeRound_advance (alike_bind (alike_require _ _) fun _ => alike_current fun t t' ht => ?_) h
        (Fragment.Rule.isFinish_of_test (fun _ => Fragment.isAny_finish (by decide)) hjoint)
      rw [ht.text_eq]
      exact alike_bind alike_advance fun _ => alike_pure _
    · exact (alikeRound_stop name).same h
  · exact alike_unless (alike_fail _) (alike_pure name)

/-- The brackets of an array that is made. -/
theorem alike_arrayMark : Alike p arrayMark arrayMark := by
  refine alike_bind alike_kind fun kind => ?_
  split
  · exact alike_bind alike_advance fun _ => alike_bind (alike_expect (by decide) _) fun _ =>
      alike_bind (alike_require _ _) fun _ => alike_pure true
  · exact alike_pure false

/-- A comma after a member makes the loop go on. -/
theorem alikeRound_commaAfter (found : β) : AlikeRound p (commaAfter found) (commaAfter found) :=
  alikeRound_ofKind (by decide) (alike_pure _) found

/-- A member with a name is added; without a name there is a fault at its place. -/
theorem alikeRound_addMember (members : List (String × Operand)) {i j : Nat} (hplace : p.place i j)
    (a : Operand) (name : Option String) :
    AlikeRound p (addMember members i a name) (addMember members j a name) := by
  cases name with
  | none => exact alikeRound_bind (alike_failAt hplace) alikeRound_commaAfter
  | some name => exact alikeRound_bind (alike_pure _) alikeRound_commaAfter

/-- The name of a member is written after `as`, or is that of what it holds. -/
theorem alikeRound_memberName (isArray dotted : Bool) (a : Operand)
    {f g : Option String → Typer (Bool × β)} (hf : ∀ name, AlikeRound p (f name) (g name)) :
    AlikeRound p (memberName isArray dotted a f) (memberName isArray dotted a g) := by
  refine alikeRound_bind alike_isWord fun isAs => ?_
  split
  · exact alikeRound_bind (alike_pure _) hf
  · split
    · exact alikeRound_bind alike_advance fun _ => alikeRound_bind (alike_map (alike_aliasName _)) hf
    · exact alikeRound_bind (alike_pure _) hf

/-- One member of what is made. -/
theorem alikeRound_createdStep (hcall : AlikeCalls p call) (isArray : Bool)
    (members : List (String × Operand)) :
    AlikeRound p (createdStep s call isArray members) (createdStep s call isArray members) := by
  refine alikeRound_bind alike_isAny fun ends => ?_
  split
  · exact alikeRound_stop members
  · exact alikeRound_position fun i j hplace => alikeRound_bind (hcall conditional) fun a =>
      alikeRound_memberName isArray _ a (alikeRound_addMember members hplace a)

/-- All members of what is made. -/
theorem alike_createdMembers (hcall : AlikeCalls p call) (isArray : Bool) :
    Alike p (createdMembers s call isArray) (createdMembers s call isArray) := by
  rw [createdMembers_eq]
  exact alike_bind (alike_repeatStep (alikeRound_createdStep hcall isArray) []) fun members =>
    alike_bind alike_isAny fun _ =>
      alike_unless (alike_fail _) (alike_bind alike_advance fun _ => alike_pure members)

/-- What stands after `new` and a type. -/
theorem alike_createdBody (hcall : AlikeCalls p call) (target : Option TypeDef) {a b : Nat}
    (h : p.place a b) : Alike p (createdBody s call target a) (createdBody s call target b) := by
  refine alike_bind alike_arrayMark fun isArray => alike_bind alike_advance fun _ =>
    alike_bind (alike_createdMembers hcall isArray) fun members => ?_
  split
  · split
    · exact alike_pure _
    · refine alike_bind (alike_ofExcept (agree_unifyAll _ none _ h)) fun element => ?_
      cases element <;> exact alike_pure _
  · exact alike_pure _

/-- The keyword `new` and all that belongs to it. -/
theorem alike_creation (hcall : AlikeCalls p call) : Alike p (creation s call) (creation s call) := by
  refine alike_position fun a b hplace => alike_bind alike_advance fun _ =>
    alike_bind alike_isAny fun found => ?_
  dsimp only
  refine alike_unless (alike_fail _) (alike_bind alike_kind fun kind => ?_)
  split
  · refine alike_position fun i j hstart => alike_bind alike_createdName fun name => ?_
    split
    · exact alike_failAt hstart
    · refine alike_bind alike_kind fun kind => ?_
      split
      · exact alike_bind (alike_argumentList hcall) fun read =>
          alike_ofExcept (agree_construct _ _ read hstart)
      · exact alike_createdBody hcall _ hplace
  · exact alike_createdBody hcall none hplace

/-! ## §4. Words and literals. -/

/-- A name that is no keyword: that of a type, or of a member of `it`. -/
theorem alike_name (hcall : AlikeCalls p call) (it : TypeDef) :
    Alike p (name s call it) (name s call it) := by
  refine alike_current fun t t' ht => alike_bind alike_typeName fun found => ?_
  rw [ht.text_eq]
  cases found with
  | some t => exact alike_typeAccess hcall t ht.start_eq
  | none =>
    refine alike_bind (alike_hasMember it _) fun has => ?_
    exact alike_unless (alike_fail _) (alike_memberAccess hcall it _)

/-- A word: keywords come first, then parameters, then names. -/
theorem alike_word (hcall : AlikeCalls p call) : Alike p (word s call) (word s call) := by
  refine alike_bind alike_scopes fun scopes => alike_current fun t t' ht => ?_
  rw [ht.text_eq]
  dsimp only
  split
  · exact alike_bind alike_advance fun _ => alike_pure _
  iterate 2
    cases scopes with
    | nil => exact alike_fail _
    | cons scope outer => exact alike_bind alike_advance fun _ => alike_pure _
  iterate 3 exact alike_bind alike_advance fun _ => alike_pure _
  · exact alike_choice hcall
  · exact alike_nullPropagation hcall
  · exact alike_creation hcall
  · split
    · exact alike_bind alike_advance fun _ => alike_pure _
    · exact alike_name hcall _

/-- The literals in a row are the same. -/
theorem alike_adjacentLiterals (first : String) :
    Alike p (adjacentLiterals first) (adjacentLiterals first) := by
  refine alike_bind alike_advance fun _ => alike_repeatStep (fun joined => ⟨fun {depth n w v} h => ?_⟩) _
  refine same_look (f := Cursor.current) ?_
  rw [p.kind_eq h.alike, p.text_eq h.alike]
  split
  · rename_i hk
    exact alikeRound_advance (alike_pure _) h (by simp [Token.isFinish, hk])
  · exact (alikeRound_stop joined).same h

/-- A look past a question mark moves neither walk. -/
theorem same_pastQuestion {depth n m : Nat} {w v : Walk (List Scope)} {c d : Cursor}
    {f g : Cursor → Typer β} {Q : β → β → Nat → Prop} (h : p.Paired Eq depth n w v)
    (hcd : p.alike m c d) (hm : m ≤ n)
    (hf : ∀ {c d m}, p.alike m c d → m ≤ n → p.Same Eq depth Q ((f c).run w) ((g d).run v)) :
    p.Same Eq depth Q ((pastQuestion c f).run w) ((pastQuestion d g).run v) := by
  unfold pastQuestion
  rw [p.kind_eq hcd]
  split
  · refine same_ofExceptThen h (agree_next hcd) ?_
    rintro c d ⟨k, hcd, hk, -⟩
    exact hf hcd (Nat.le_trans hk hm)
  · exact hf hcd hm

/-- A literal before a parenthesis names the type that is constructed. -/
theorem alike_construction (hcall : AlikeCalls p call) (value : String) {a b : Nat} (hplace : p.place a b) :
    Alike p (construction s call value a) (construction s call value b) := by
  refine alike_bind (alike_argumentList hcall) fun read => ?_
  split
  · exact alike_ofExcept (agree_construct _ _ read hplace)
  · exact alike_failAt hplace

/-- Literals in a row are joined before they are read. -/
theorem alike_joinedText {t t' : Token} (ht : SameToken p t t') : Alike p (joinedText s t) (joinedText s t') := by
  unfold joinedText
  rw [ht.text_eq]
  exact alike_bind (alike_adjacentLiterals _) fun joined =>
    alike_bind (alike_ofExcept (Fragment.Rule.agree_value _ joined ht.start_eq)) fun _ => alike_pure _

/-- What follows the looks behind a literal; they may have come to places that are ahead of the walks. -/
theorem same_textRest (hcall : AlikeCalls p call) {depth n m : Nat} {w v : Walk (List Scope)} {t t' : Token}
    {c d : Cursor} (ht : SameToken p t t') (hcd : p.alike m c d) (hm : m ≤ n) (h : p.Paired Eq depth n w v) :
    p.Same Eq depth (Within n) ((textRest s call t c).run w) ((textRest s call t' d).run v) := by
  rw [textRest_eq, textRest_eq, ht.text_eq, p.kind_eq hcd]
  refine same_ofExceptThen h (Fragment.Rule.agree_value _ _ ht.start_eq) ?_
  rintro value _ rfl
  split
  · split
    · exact (alike_bind (alike_fail _) fun _ => alike_bind alike_advance fun _ => alike_pure _).same h
    · exact (alike_bind alike_advance fun _ => alike_pure _).same h
  · split
    · exact same_editThen h hcd fun w' v' _ h => ((alike_construction hcall value ht.start_eq).same h).within hm
    · exact (alike_joinedText ht).same h

/-- A string literal, which may be the name of a type. -/
theorem alike_text (hcall : AlikeCalls p call) : Alike p (text s call) (text s call) := by
  rw [text_eq]
  refine ⟨fun {depth n w v} h => same_look (f := id) ?_⟩
  refine same_ofExceptThen h (agree_next h.alike) ?_
  rintro c d ⟨m, hcd, hm, -⟩
  exact same_pastQuestion h hcd hm fun hcd hm => same_textRest hcall (sameToken_of_alike h.alike) hcd hm h

/-- A number is read from its text, and a fault is at its place. -/
theorem alike_number (typeOf? : String → Option String) (form : Form) (invalid : String → Cause) :
    Alike p (number typeOf? form invalid) (number typeOf? form invalid) := by
  refine alike_current fun t t' ht => ?_
  rw [ht.text_eq]
  split
  · exact alike_fail _
  · exact alike_bind alike_advance fun _ => alike_pure _

/-- The rule for an operand without what is attached to it. -/
theorem alike_primary (hcall : AlikeCalls p call) : Alike p (primary s call) (primary s call) := by
  refine alike_bind alike_kind fun kind => ?_
  split
  · exact alike_word hcall
  · exact alike_text hcall
  · exact alike_number _ _ _
  · exact alike_number _ _ _
  · exact alike_bind alike_advance fun _ => alike_bind (hcall conditional) fun inner =>
      alike_bind (alike_expect (by decide) _) fun _ => alike_pure inner
  · exact alike_fail _

/-- One member or index after an operand. -/
theorem alikeRound_attachedStep (hcall : AlikeCalls p call) (a : Operand) :
    AlikeRound p (attachedStep s call a) (attachedStep s call a) := by
  refine alikeRound_look (fun _ _ hkind _ => hkind) fun {depth n w v} h => ?_
  split
  · rename_i hdot
    exact alikeRound_advance (alike_bind (alike_memberAccess hcall _ _) fun member => alike_pure _) h
      (by simp [Token.isFinish, hdot])
  · exact same_refuse h
  · exact (AlikePast.round (alikePast_bind (alikePast_elementAccess hcall _) fun element =>
      alike_pure _)).same h
  · exact (alikeRound_stop a).same h

/-- All members and indices after an operand. -/
theorem alike_attached (hcall : AlikeCalls p call) (a : Operand) :
    Alike p (attached s call a) (attached s call a) :=
  alike_repeatStep (alikeRound_attachedStep hcall) a

/-! ## §5. Operators. -/

section

variable (s call)

/-- The operators after the first operand of a chain, each with an operand after it. -/
def links (rule : Rule) (isOperator : Cursor → Bool) : Operand → Typer Operand :=
  repeatStep fun left => do
    if isOperator (← cursor) then
      let token ← current
      advance
      let right ← call rule
      let operator := (Operator.ofToken? token.kind).getD .modulo
      let both ← ofExcept (s.registry.operate operator token left right)
      pure (true, both)
    else pure (false, left)

/-- The containments after an operand. -/
def containments : Operand → Typer Operand :=
  repeatStep fun left => do
    if (← cursor).isOneOf ["in", "not_in", "not"] [.exclamation] then
      container s call left
      pure (true, .predefined Known.boolean)
    else pure (false, left)

/-- What a rule does after the operand that it starts with, if its first token is at the offset and no
operator of one operand. -/
def afterFirst : Rule → Nat → Operand → Typer Operand
  | conditional, position, test => do
    if (← kind) = .question then
      ofExcept (SequenceOperator.requireBoolean test position)
      let question ← Walker.position
      advance
      let a ← call conditional
      expect .colon .colonExpected
      let b ← call conditional
      ofExcept (s.registry.unify a b question)
    else pure test
  | coalescing, _, left => do
    if (← kind) = .coalesce then
      let operator ← current
      advance
      let right ← call conditional
      if left.isNull then pure (.value right.type)
      else if s.registry.converts right left.type then pure (.value left.type)
      else if s.registry.converts left right.type then pure (.value right.type)
      else ofExcept (.error (operator.incompatible left right))
    else pure left
  | projection, _, left => do
    if (← kind) = .arrow then fail .leftover
    pure left
  | disjunction, _, first => links s call conjunction (fun c => c.current.kind == .doubleBar) first
  | conjunction, _, first => links s call containment (fun c => c.current.kind == .doubleAmpersand) first
  | containment, _, first => containments s call first
  | bitwise, _, first => links s call comparison (fun c => [.ampersand, .bar].contains c.current.kind) first
  | comparison, _, first => links s call shift (fun c => c.current.kind.isComparison) first
  | shift, _, first => links s call sum (fun c => [.shiftLeft, .shiftRight].contains c.current.kind) first
  | sum, _, first => links s call product (fun c => [.plus, .minus].contains c.current.kind) first
  | product, _, first => links s call unary (fun c =>
      [.asterisk, .slash, .percent].contains c.current.kind || c.isWord "mod") first
  | unary, _, a => pure a
  | operand, _, first => attached s call first

end

/-- The rest of a chain of operators of one level.  Which tokens are its operators is told by looking at them,
and the end of the text is none. -/
theorem alike_links (hcall : AlikeCalls p call) (rule : Rule) {isOperator : Cursor → Bool}
    (hreads : Fragment.ReadsToken isOperator)
    (hfinish : ∀ c : Cursor, c.current.isFinish = true → isOperator c = false) (first : Operand) :
    Alike p (links s call rule isOperator first) (links s call rule isOperator first) := by
  refine alike_repeatStep (fun left => ?_) first
  refine ⟨fun {depth n w v} h => same_look (f := id) ?_⟩
  dsimp only [id]
  rw [test_eq hreads h.alike]
  split
  · rename_i hoperator
    have htoken : SameToken p w.cursor.current v.cursor.current := sameToken_of_alike h.alike
    refine alikeRound_advance ?_ h (Fragment.Rule.isFinish_of_test hfinish hoperator)
    refine alike_bind (hcall rule) fun right => ?_
    rw [htoken.kind_eq]
    exact alike_bind (alike_ofExcept (agree_operate _ _ htoken left right)) fun both => alike_pure _
  · exact (alikeRound_stop left).same h

/-- The elements of a list, the first one after a parenthesis and each other one after a comma. -/
theorem same_containerList (hcall : AlikeCalls p call) {operator operator' : Token}
    (ht : SameToken p operator operator') (left : Operand) {depth n : Nat}
    {w v : Walk (List Scope)} (h : p.Paired Eq depth n w v) (hw : w.cursor.current.isFinish = false) :
    p.Same Eq depth (Within n) ((containerList s call operator left).run w)
      ((containerList s call operator' left).run v) := by
  refine same_then (same_repeatStep (P := fun a b m => a = b ∧ m ≤ n)
    (J := fun w => w.cursor.current.isFinish = false) ?_ ?_ ⟨rfl, Nat.le_refl n⟩ hw h)
    fun _ m _ _ hm h => (same_advance_within h).within hm
  -- Each round goes past the bracket or comma where it begins.
  · rintro _ _ m w v ⟨-, hm⟩ hw h
    refine same_bind (Q := Past m) (same_advance_past h hw) ?_
    rintro _ _ k w v - ⟨-, hk⟩ h
    refine same_then ((hcall unary).same h) fun element j w v hj h => ?_
    refine same_ofExceptThen h (agree_contained _ ht left element) fun _ _ _ => ?_
    refine same_look (f := fun c => c.current.kind) ?_
    rw [p.kind_eq h.alike]
    have hj : j < m := Nat.lt_of_le_of_lt hj hk
    split
    · exact .ok h ⟨rfl, fun _ => ⟨hj, rfl, by omega⟩, nofun⟩
    · exact .ok h ⟨rfl, nofun, fun _ => ⟨rfl, by omega⟩⟩
    · exact same_failAt h ht.start_eq
    · exact same_fail h rfl
  -- A list goes on at a comma only.
  · intro _ w b w' _ hrun
    have hcomma : w'.cursor.current.kind = .comma := kind_of_elementStep s call hrun
    exact Token.isFinish_of_kind hcomma (by decide)

/-- A prefix operator, or a minus that is taken into a number. -/
theorem alike_unary (hcall : AlikeCalls p call) :
    Alike p (body s call unary) (body s call unary) := by
  refine alike_nested (alike_bind alike_isAny fun sign => alike_bind alike_isWord fun word => ?_)
  split
  · refine alike_current fun t t' ht => alike_bind alike_advance fun _ =>
      ⟨fun {depth n w v} h => same_look (f := Cursor.current) ?_⟩
    simp only [ht.kind_eq, p.kind_eq h.alike]
    split
    · refine same_editThen h (p.replace h.alike rfl (p.kind_eq h.alike)
        (congrArg ("-" ++ ·) (p.text_eq h.alike)) ht.start_eq) fun _ _ _ h => (hcall operand).same h
    · exact (alike_bind (hcall unary) fun a => alike_ofExcept (agree_operateUnary ht a)).same h
  · exact hcall operand

/-- The operator of a containment is one token, or two of which the second one is `in`. -/
theorem same_pastOperator (isNegated : Bool) {a b : Nat} (hplace : p.place a b) {x y : Typer Unit}
    (hxy : Alike p x y) {depth n : Nat} {w v : Walk (List Scope)} (h : p.Paired Eq depth n w v)
    (hw : w.cursor.current.isFinish = false) :
    p.Same Eq depth (Past n) ((pastOperator isNegated a x).run w) ((pastOperator isNegated b y).run v) := by
  have hpast : Alike p (advance >>= fun _ => x) (advance >>= fun _ => y) :=
    alike_bind alike_advance fun _ => hxy
  unfold pastOperator
  split
  · refine same_pastThen (same_advance_past h hw) fun _ _ _ _ _ h => ?_
    exact (alike_bind alike_isWord fun _ => alike_unless (alike_failAt hplace) hpast).same h
  · exact same_pastThen (same_advance_past h hw) fun _ _ _ _ _ h => hxy.same h

/-- What `in` is followed by: a list in parentheses, or a sequence. -/
theorem alike_contained (hcall : AlikeCalls p call) {operator operator' : Token}
    (ht : SameToken p operator operator') (left : Operand) :
    Alike p (contained s call operator left) (contained s call operator' left) := by
  refine ⟨fun {depth n w v} h => same_look (f := fun c => c.current.kind) ?_⟩
  rw [p.kind_eq h.alike, ht.text_eq]
  split
  · rename_i hopen
    exact same_containerList hcall ht left h (Token.isFinish_of_kind hopen (by decide))
  · refine (alike_bind (hcall operand) fun sequence => ?_).same h
    split
    · exact alike_failAt ht.start_eq
    · exact alike_ofExcept (agree_contained _ ht left _)
  · exact same_failAt h ht.start_eq

/-- A containment goes past its operator. -/
theorem same_container (hcall : AlikeCalls p call) (left : Operand) {depth n : Nat}
    {w v : Walk (List Scope)} (h : p.Paired Eq depth n w v) (hw : w.cursor.current.isFinish = false) :
    p.Same Eq depth (Past n) ((container s call left).run w) ((container s call left).run v) := by
  have ht : SameToken p w.cursor.current v.cursor.current := sameToken_of_alike h.alike
  rw [container_eq]
  refine same_look (f := Cursor.current) ?_
  rw [ht.text_eq, ht.kind_eq]
  exact same_pastOperator _ ht.start_eq (alike_contained hcall ht left) h hw

/-- Any number of `in` one after the other. -/
theorem alike_containments (hcall : AlikeCalls p call) (first : Operand) :
    Alike p (containments s call first) (containments s call first) := by
  refine alike_repeatStep (fun left => ?_) first
  refine ⟨fun {depth n w v} h => same_look (f := id) ?_⟩
  dsimp only [id]
  rw [test_eq (Fragment.readsToken_isOneOf _ _) h.alike]
  split
  · rename_i hstarts
    refine same_bind (Q := Past n) (same_container hcall left h
      (Fragment.Rule.isFinish_of_startsContainment hstarts)) fun _ _ k _ _ _ hk h => ?_
    exact .ok h ⟨rfl, Nat.le_of_lt hk.2, fun _ => hk.2⟩
  · exact (alikeRound_stop left).same h

/-- The grammar of fragments knows the same operators. -/
theorem alike_operators (hcall : AlikeCalls p call) (rule : Rule) {same sub : Fragment.Rule}
    {isOperator : Cursor → Bool} (h : same.operators? = some (sub, isOperator)) (first : Operand) :
    Alike p (links s call rule isOperator first) (links s call rule isOperator first) :=
  have ⟨hreads, hfinish⟩ := Fragment.Rule.operators?_test h
  alike_links hcall rule hreads hfinish first

/-- **After its first operand every rule does alike.** -/
theorem alike_afterFirst (hcall : AlikeCalls p call) (r : Rule) {a b : Nat}
    (hplace : r = conditional → p.place a b) (first : Operand) :
    Alike p (afterFirst s call r a first) (afterFirst s call r b first) := by
  -- One case for each rule; those of chained operators share theirs.
  cases r with
  | conditional =>
    refine alike_bind alike_kind fun kind => ?_
    split
    · refine alike_bind (alike_ofExcept (agree_requireBoolean first (hplace rfl))) fun _ =>
        alike_position fun i j hquestion => alike_bind alike_advance fun _ =>
          alike_bind (hcall conditional) fun x => alike_bind (alike_expect (by decide) _) fun _ =>
            alike_bind (hcall conditional) fun y => alike_ofExcept (agree_unify _ x y hquestion)
    · exact alike_pure first
  | coalescing =>
    refine alike_bind alike_kind fun kind => ?_
    split
    · refine alike_current fun t t' ht => alike_bind alike_advance fun _ =>
        alike_bind (hcall conditional) fun right => ?_
      repeat' split
      · exact alike_pure _
      · exact alike_pure _
      · exact alike_pure _
      · exact alike_ofExcept (agree_incompatible ht first right)
    · exact alike_pure first
  | projection =>
    refine alike_bind alike_kind fun kind => ?_
    dsimp only
    split
    · exact alike_bind (alike_fail _) fun _ => alike_pure first
    · exact alike_pure first
  | disjunction =>
    exact alike_operators hcall _ (show Fragment.Rule.disjunction.operators? = some _ from rfl) first
  | conjunction =>
    exact alike_operators hcall _ (show Fragment.Rule.conjunction.operators? = some _ from rfl) first
  | containment => exact alike_containments hcall first
  | bitwise =>
    exact alike_operators hcall _ (show Fragment.Rule.bitwise.operators? = some _ from rfl) first
  | comparison =>
    exact alike_operators hcall _ (show Fragment.Rule.comparison.operators? = some _ from rfl) first
  | shift =>
    exact alike_operators hcall _ (show Fragment.Rule.shift.operators? = some _ from rfl) first
  | sum =>
    exact alike_operators hcall _ (show Fragment.Rule.sum.operators? = some _ from rfl) first
  | product =>
    exact alike_operators hcall _ (show Fragment.Rule.product.operators? = some _ from rfl) first
  | unary => exact alike_pure first
  | operand => exact alike_attached hcall first

/-- The body of every rule, given the calls. -/
theorem alike_body (hcall : AlikeCalls p call) (r : Rule) :
    Alike p (body s call r) (body s call r) := by
  -- Only a conditional looks at its offset.
  have hafter : ∀ r', r ≠ conditional → Alike p (call r' >>= afterFirst s call r 0)
      (call r' >>= afterFirst s call r 0) := fun r' hr =>
    alike_bind (hcall r') (alike_afterFirst hcall r fun h => absurd h hr)
  -- Every rule reads its first operand, and then what may follow that.
  cases r with
  | conditional =>
    exact alike_nested (alike_position fun a b hplace => alike_bind (hcall coalescing)
      (alike_afterFirst hcall conditional fun _ => hplace))
  | coalescing => exact hafter projection nofun
  | projection => exact hafter disjunction nofun
  | disjunction => exact hafter conjunction nofun
  | conjunction => exact hafter containment nofun
  | containment => exact hafter bitwise nofun
  | bitwise => exact hafter comparison nofun
  | comparison => exact hafter shift nofun
  | shift => exact hafter sum nofun
  | sum => exact hafter product nofun
  | product => exact hafter unary nofun
  | unary => exact alike_unary hcall
  | operand => exact alike_bind (alike_primary hcall) (alike_attached hcall)

/-- **Every rule does alike**, with any budget. -/
theorem alike_run (p : Twins) (s : Setting) (budget : Nat) (r : Rule) :
    Alike p (run s budget r) (run s budget r) := by
  induction budget generalizing r with
  | zero => exact alike_fail _
  | succ budget ih => exact alike_body ih r

end Rule

/-! ## §6. Expressions. -/

/-- **The same tokens are an expression of the same type**, or fail alike. -/
theorem same_typeOf (s : Setting) {n : Nat} {c d : Cursor} (h : p.alike n c d) :
    Concur p.place Eq (s.typeOf c) (s.typeOf d) := by
  have hrun := (Rule.alike_run p s Rule.budget .conditional).same
    (⟨h, ⟨rfl, rfl⟩, rfl⟩ : p.Paired Eq 0 n ⟨c, 0, []⟩ ⟨d, 0, []⟩)
  unfold Setting.typeOf
  generalize (Rule.run s Rule.budget .conditional).run ⟨c, 0, []⟩ = o at hrun
  generalize (Rule.run s Rule.budget .conditional).run ⟨d, 0, []⟩ = q at hrun
  cases hrun with
  | error _ hf => exact .error hf
  | ok h hab =>
    dsimp only
    rw [isFinish_eq h.alike, hab.1]
    split
    · exact .ok rfl
    · exact .error ⟨rfl, p.start_eq h.alike⟩

end TypeAhead.Typing
