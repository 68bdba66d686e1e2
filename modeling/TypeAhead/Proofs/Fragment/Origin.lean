/-
  TypeAhead.Proofs.Fragment.Origin — WHERE OPEN OPERANDS COME FROM.

  What a walk leaves open at the top of its stack was opened by an operand.  Either
  that operand is done and the text is over with it, or it is the one in which the
  walk failed.  Nothing that comes afterwards changes this, since rules that go on
  with what is open leave the stack alone.

  An operand starts with a token as it was read.  No dot stands before it and it is
  no operator of one operand, save that a minus becomes part of the number after it.

      traced_operand    the operands that leave something open
      traces_run        every rule, with every budget
      origin_of_walk    the operand open at the end of a text
-/
import TypeAhead.Proofs.Fragment.Edge

namespace TypeAhead.Fragment

open Walker

/-! ## §1. Operands of a text. -/

/-- An operand of the text may start at the cursor. -/
inductive Begins (text : List Char) : Cursor → Prop where
  | plain {past : List TokenKind} {c : Cursor} (h : Reaches text past c)
      (hpast : past.head? ≠ some .dot) (hsign : Rule.isSign c = false) : Begins text c
  /-- A number, with the minus before it. -/
  | negated {past : List TokenKind} {m c : Cursor} (h : Reaches text past m)
      (hpast : past.head? ≠ some .dot) (hminus : m.current.kind = .minus) (hnext : m.next = .ok c)
      (hnumber : c.current.kind.isNumber = true) :
      Begins text { c with current := c.current.negated m.current }

/-- The walk is somewhere in the text. -/
def Standing (text : List Char) (w : Walk (List Nat)) : Prop := ∃ past, Stands text past w.cursor

/-- The walk is at a token as it was read, and `P` holds of the kind before it. -/
def Meets (text : List Char) (P : Option TokenKind → Prop) (w : Walk (List Nat)) : Prop :=
  ∃ past, Reaches text past w.cursor ∧ P past.head?

/-- The walk is at a token as it was read. -/
abbrev On (text : List Char) : Walk (List Nat) → Prop := Meets text fun _ => True

/-- The walk is at a token as it was read, after something that is no dot. -/
abbrev Anew (text : List Char) : Walk (List Nat) → Prop := Meets text (· ≠ some .dot)

variable {parsing : Parsing} {text : List Char} {w v u : Walk (List Nat)} {failure : Failure}
  {P : Option TokenKind → Prop}

/-- What the walk meets is a token on which it may stand. -/
theorem Meets.on (h : Meets text P w) : On text w := have ⟨past, h, _⟩ := h; ⟨past, h, trivial⟩

/-- It stands on a token of the text. -/
theorem Meets.standing (h : Meets text P w) : Standing text w :=
  have ⟨past, h, _⟩ := h
  ⟨past, .of_reaches h⟩

/-- Where a text begins, one of its tokens is. -/
theorem Begins.stands {c : Cursor} (h : Begins text c) : ∃ past, Stands text past c := by
  cases h with
  | plain h => exact ⟨_, .of_reaches h⟩
  | @negated past m c h _ hminus hnext =>
    have hm : m.current.isFinish = false := by simp [Token.isFinish, hminus]
    obtain ⟨hreached, hlt⟩ := (Stands.of_reaches h).next hm hnext
    exact ⟨_, (show Stands text _ c from .of_reaches hreached).replace rfl (Nat.le_of_lt hlt)⟩

/-- A name that stands for a symbol is no name, unless a dot is before it. -/
theorem isWord_of_meets (h : Anew text w) {word : String} (hword : TokenKind.ofWord? word ≠ none) :
    w.cursor.isWord word = false := by
  refine Bool.eq_false_iff.2 fun hw => hword ?_
  simp only [Cursor.isWord, Text.sameWord, Bool.and_eq_true, beq_iff_eq] at hw
  obtain ⟨past, h, hpast⟩ := h
  rw [TokenKind.ofWord?, ← hw.2]
  cases h with
  | first hopen =>
    exact Scan.ofWord?_of_token hpast (Cursor.read_eq_ok hopen).2.2 hw.1
  | next h hc hnext =>
    rw [Cursor.next_of_not_finish hc] at hnext
    exact Scan.ofWord?_of_token hpast (Cursor.read_eq_ok hnext).2.2 hw.1

/-- A name after something that is no dot starts an operand. -/
theorem Meets.begins_of_name (h : Anew text w) (hw : w.cursor.current.kind = .identifier) :
    Begins text w.cursor := by
  have hnot : w.cursor.isWord "not" = false := isWord_of_meets h (by decide)
  obtain ⟨past, h, hpast⟩ := h
  exact .plain h hpast (by simp [Rule.isSign, Cursor.isAny, hw, hnot])

/-! ## §2. What is open, and what opened it. -/

/-- The innermost of what is open was opened by an operand of the text that comes to `o`. -/
def OpenedBy (parsing : Parsing) (text : List Char) (held : List Nat) (o : Located) : Prop :=
  ∃ budget u, Begins text u.cursor ∧ held = u.cursor.current.start :: u.held ∧
    (Rule.run parsing budget .operand).run u = o

/-- An operand with which the text is over has left this open. -/
def Over (parsing : Parsing) (text : List Char) (held : List Nat) : Prop :=
  ∃ x : Walk (List Nat), OpenedBy parsing text held (.ok () x) ∧
    x.cursor.current.isFinish = true ∧ x.held = held

/-- An operand that failed has left this open. -/
def Broken (parsing : Parsing) (text : List Char) (failure : Failure) (held : List Nat) : Prop :=
  ∃ x : Walk (List Nat), OpenedBy parsing text held (.error failure x) ∧ x.held = held

/-- From `w` to `v` nothing has changed that is open, or an operand is over with the text. -/
def Kept (parsing : Parsing) (text : List Char) (w v : Walk (List Nat)) : Prop :=
  v.held = w.held ∨ Over parsing text v.held

/-- How a walk that was at `w` may fail at `v`: an operand may have failed with it. -/
def Stopped (parsing : Parsing) (text : List Char) (w : Walk (List Nat)) (failure : Failure)
    (v : Walk (List Nat)) : Prop :=
  Kept parsing text w v ∨ Broken parsing text failure v.held

/-- What is kept twice in a row is kept. -/
theorem Kept.trans (h : Kept parsing text w v) (h' : Kept parsing text v u) :
    Kept parsing text w u := by
  rcases h' with h' | h'
  · exact h.imp h'.trans fun hv => h' ▸ hv
  · exact .inr h'

/-- A walk that is stopped later is stopped all the same. -/
theorem Kept.stopped (h : Kept parsing text w v) (h' : Stopped parsing text v failure u) :
    Stopped parsing text w failure u :=
  h'.imp h.trans id

/-! ## §3. Rules in parts. -/

/-- From `w` on the rule keeps what is open, as far as that is possible, and `Q` holds when it is
done. -/
abbrev Traced (parsing : Parsing) (text : List Char) {α : Type} (x : Locator α) (w : Walk (List Nat))
    (Q : α → Walk (List Nat) → Prop) : Prop :=
  Ensures x w (fun _ => True) (fun a v => Q a v ∧ Kept parsing text w v) (Stopped parsing text w)

section

variable {α β : Type} {x : Locator α} {f : α → Locator β} {test : Cursor → Bool}
  {Q Q' : α → Walk (List Nat) → Prop} {R : β → Walk (List Nat) → Prop}

/-- Less may be said of where a rule leaves a walk. -/
theorem traced_imp (h : Traced parsing text x w Q) (hQ : ∀ a v, Q a v → Q' a v) :
    Traced parsing text x w Q' :=
  h.imp (fun a v hv => ⟨hQ a v hv.1, hv.2⟩) fun _ _ hv => hv

/-- **One rule after the other**: what the first one leaves is where the second one starts. -/
theorem traced_bind (hx : Traced parsing text x w Q)
    (hf : ∀ a v, Q a v → Traced parsing text (f a) v R) : Traced parsing text (x >>= f) w R := by
  refine Ensures.bind hx fun a v hv => ?_
  exact (hf a v hv.1).imp (fun _ _ hu => ⟨hu.1, hv.2.trans hu.2⟩) fun _ _ hu => hv.2.stopped hu

theorem traced_pure {a : α} (h : Q a w) : Traced parsing text (pure a) w Q :=
  .pure trivial ⟨h, .inl rfl⟩

/-- Looking around moves nothing. -/
theorem traced_look {f : Cursor → α} {g : α → Locator β}
    (h : Traced parsing text (g (f w.cursor)) w R) : Traced parsing text (look f >>= g) w R := by
  refine traced_bind (Q := fun a v => a = f w.cursor ∧ v = w) (.look trivial ⟨⟨rfl, rfl⟩, .inl rfl⟩) ?_
  rintro _ _ ⟨rfl, rfl⟩
  exact h

/-- A failure on the spot stops the walk where it is. -/
theorem traced_fail {cause : Cause} : Traced parsing text (fail cause : Locator α) w Q :=
  .fail trivial (.inl (.inl rfl))

theorem traced_failAt {position : Nat} {cause : Cause} :
    Traced parsing text (failAt position cause : Locator α) w Q :=
  .failAt trivial (.inl (.inl rfl))

/-- A fault in what was looked up leaves the walk where it is. -/
theorem traced_ofExcept {result : Except Fault α} (h : ∀ a, Q a w) :
    Traced parsing text (ofExcept result) w Q :=
  .ofExcept trivial (fun a _ => ⟨h a, .inl rfl⟩) fun _ _ => .inl (.inl rfl)

/-- A change of the current token opens nothing. -/
theorem traced_edit {f : Cursor → Cursor} {Q : Unit → Walk (List Nat) → Prop}
    (h : Q () { w with cursor := f w.cursor }) : Traced parsing text (edit f) w Q :=
  .edit trivial trivial ⟨h, .inl rfl⟩

/-- Going on leads to the next token, as it was read. -/
theorem traced_onward (h : Standing text w) (hw : w.cursor.current.isFinish = false)
    (hP : P (some w.cursor.current.kind)) : Traced parsing text advance w fun _ v =>
      Meets text P v ∧ w.cursor.next = .ok v.cursor := by
  obtain ⟨past, h⟩ := h
  refine .advance trivial (fun c hnext => ⟨trivial, ⟨⟨_, (h.next hw hnext).1, hP⟩, hnext⟩, .inl rfl⟩) ?_
  exact fun _ _ => .inl (.inl rfl)

/-- To go past a token leads on to the next one. -/
theorem traced_skip (h : Standing text w) (hw : w.cursor.current.isFinish = false) :
    Traced parsing text advance w fun _ => On text :=
  traced_imp (traced_onward h hw trivial) fun _ _ hv => hv.1

/-- Past what is no dot something new may start. -/
theorem traced_advance (h : Standing text w) (hw : w.cursor.current.isFinish = false)
    (hdot : w.cursor.current.kind ≠ .dot) : Traced parsing text advance w fun _ => Anew text :=
  traced_imp (traced_onward h hw (by simpa using hdot)) fun _ _ hv => hv.1

/-- A choice by the current token. -/
theorem traced_ifLook {y z : Locator β} (htrue : test w.cursor = true → Traced parsing text y w R)
    (hfalse : test w.cursor = false → Traced parsing text z w R) :
    Traced parsing text (do if ← look test then y else z) w R :=
  .ifLook trivial htrue hfalse

theorem traced_onlyIf {y : Locator Unit} {R : Unit → Walk (List Nat) → Prop}
    (htrue : test w.cursor = true → Traced parsing text y w R)
    (hfalse : test w.cursor = false → R () w) : Traced parsing text (onlyIf test y) w R :=
  .onlyIf trivial htrue fun h => ⟨hfalse h, .inl rfl⟩

/-- A demand that is met leaves the walk where it is. -/
theorem traced_demand {cause : Cause} {R : Unit → Walk (List Nat) → Prop}
    (h : test w.cursor = true → R () w) : Traced parsing text (demand test cause) w R :=
  .demand trivial (fun ht => ⟨h ht, .inl rfl⟩) fun _ => .inl (.inl rfl)

/-- Behind a token that is no dot the text may begin anew. -/
theorem traced_expect {kind : TokenKind} {cause : Cause} (h : Standing text w)
    (hkind : kind ≠ .finish) (hdot : kind ≠ .dot) :
    Traced parsing text (expect kind cause) w fun _ => Anew text := by
  refine traced_bind (Q := fun _ v => v = w ∧ w.cursor.current.kind = kind)
    (traced_demand fun ht => ⟨rfl, by simpa [Cursor.isKind] using ht⟩) ?_
  rintro _ _ ⟨rfl, rfl⟩
  exact traced_advance h (by simpa [Token.isFinish] using hkind) hdot

/-- One level deeper the same is open. -/
theorem traced_nested (h : Traced parsing text x w.deeper fun a v => Q a v.shallower) :
    Traced parsing text (nested x) w Q := by
  refine .nested trivial (fun _ => .inl (.inl rfl)) fun _ => ?_
  exact h.imp (fun _ _ hv => ⟨trivial, hv⟩) fun _ _ hv => ⟨trivial, hv⟩

/-- What each round keeps holds when the loop is over, and so does the negation of its test. -/
theorem traced_while {step : Locator Unit} {J : Walk (List Nat) → Prop}
    (hstep : ∀ v, J v → test v.cursor = true → Traced parsing text step v fun _ => J) (h : J w) :
    Traced parsing text (repeatWhile test step) w fun _ v => J v ∧ test v.cursor = false := by
  refine (Ensures.repeatWhile (J := fun v => J v ∧ Kept parsing text w v) (fun _ _ => trivial)
    (fun _ hv => .inl hv.2) ?_ ⟨h, .inl rfl⟩).imp (fun _ _ hv => ⟨⟨hv.1.1, hv.2⟩, hv.1.2⟩)
    fun _ _ hv => hv
  intro v hv htest
  exact (hstep v hv.1 htest).imp (fun _ _ hu => ⟨hu.1, hv.2.trans hu.2⟩) fun _ _ hu => hv.2.stopped hu

/-- A loop whose rounds carry something along. -/
theorem traced_repeatStep {step : α → Locator (Bool × α)} {a : α} {J : Walk (List Nat) → Prop}
    (hstep : ∀ a v, J v →
      Traced parsing text (step a) v fun next u => if next.1 then J u else Q next.2 u)
    (h : J w) : Traced parsing text (repeatStep step a) w Q := by
  refine Ensures.repeatStep (J := fun _ v => J v ∧ Kept parsing text w v) (fun _ _ _ => trivial)
    (fun _ _ hv => .inl hv.2) ?_ ⟨h, .inl rfl⟩
  intro a v hv
  refine (hstep a v hv.1).imp (fun next u hu => ?_) fun _ _ hu => hv.2.stopped hu
  obtain ⟨hu, hkept⟩ := hu
  cases hagain : next.1 <;> rw [hagain] at hu
  · exact ⟨trivial, hu, hv.2.trans hkept⟩
  · exact ⟨hu, hv.2.trans hkept⟩

end

/-! ## §4. Parts of bodies that call no rule. -/

/-- Either both words of a discarded argument were there, or the walk is where it was. -/
theorem traced_discardedOut (h : Anew text w) :
    Traced parsing text discardedOut w fun found v => if found then On text v else v = w := by
  refine traced_ifLook (fun hout => ?_) fun _ => traced_pure rfl
  have hw : w.cursor.current.isFinish = false := by
    cases hc : w.cursor.current.kind <;> simp_all [Cursor.isOneOf, Token.isFinish, outWords]
  refine traced_bind (traced_skip h.standing hw) fun _ v hv => ?_
  refine traced_bind (Q := fun _ u => u = v ∧ v.cursor.current.text = "_")
    (traced_demand fun ht => ⟨rfl, by simpa using ht⟩) ?_
  rintro _ u ⟨rfl, htext⟩
  have hu : u.cursor.current.isFinish = false := by
    refine Bool.eq_false_iff.2 fun hf => ?_
    obtain ⟨past, hreached, -⟩ := hv
    obtain ⟨-, -, read, lexeme, hd⟩ := hreached.split
    have hkind : u.cursor.current.kind = .finish := Token.isFinish_iff.1 hf
    rw [hd.lexeme_eq, hd.finish_iff.1 hkind] at htext
    exact absurd htext (by decide)
  exact traced_bind (traced_skip hv.standing hu) fun _ t ht => traced_pure ht

/-- Past the name of an alias. -/
theorem traced_aliasName (dotted : Bool) (h : Meets text P w) :
    Traced parsing text (aliasName dotted) w fun _ => On text := by
  refine traced_bind (Q := fun _ v => v = w ∧ w.cursor.current.kind = .identifier)
    (traced_demand fun ht => ⟨rfl, by simpa [Cursor.isKind] using ht⟩) ?_
  rintro _ v ⟨rfl, hkind⟩
  cases dotted with
  | false =>
    refine traced_look ?_
    exact traced_bind (traced_skip h.standing (by simp [Token.isFinish, hkind]))
      fun _ u hu => traced_pure hu
  | true =>
    refine traced_bind (Q := fun _ => On text) ?_ fun _ u hu => traced_pure hu
    refine traced_repeatStep (J := On text) (fun name u hu => traced_look ?_) h.on
    split
    · rename_i hjoint
      refine traced_bind (traced_skip hu.standing ?_) fun _ t ht => traced_pure ht
      rcases Bool.or_eq_true .. ▸ hjoint with hk | hk <;>
        simp [Token.isFinish, of_decide_eq_true hk]
    · exact traced_pure hu

namespace Rule

/-- Behind the operator of a containment an operand may begin. -/
theorem traced_containmentOperator (h : On text w) (hw : startsContainment w.cursor = true) :
    Traced parsing text (containmentOperator w.cursor.current) w fun _ => Anew text := by
  have hkind : w.cursor.current.kind = .identifier ∨ w.cursor.current.kind = .exclamation := by
    cases hc : w.cursor.current.kind <;> simp_all [startsContainment, Cursor.isOneOf]
  have hfinish : w.cursor.current.isFinish = false := by
    rcases hkind with hk | hk <;> simp [Token.isFinish, hk]
  have hfirst : Traced parsing text advance w fun _ => Anew text :=
    traced_advance h.standing hfinish (by rcases hkind with hk | hk <;> simp [hk])
  -- Either the walk is still at the operator, or past a negation and at `in`.
  refine traced_bind (Q := fun _ v => v = w ∨ Anew text v ∧ v.cursor.current.kind = .identifier)
    (traced_onlyIf (fun _ => ?_) fun _ => .inl rfl) ?_
  · refine traced_bind hfirst fun _ v hv => traced_ifLook (fun hin => traced_pure (.inr ⟨hv, ?_⟩))
      fun _ => traced_failAt
    simp only [Cursor.isWord, Bool.and_eq_true, beq_iff_eq] at hin
    exact hin.1
  · rintro _ v (rfl | ⟨hv, hk⟩)
    · exact hfirst
    · exact traced_advance hv.standing (by simp [Token.isFinish, hk]) (by simp [hk])

/-- Past the name of a type stands an opening bracket. -/
theorem traced_createdType (h : Meets text P w) (hw : w.cursor.current.kind = .identifier) :
    Traced parsing text createdType w fun _ v => On text v ∧
      v.cursor.isAny [.openParen, .openBracket, .openCurly] = true := by
  refine traced_bind (traced_skip h.standing (by simp [Token.isFinish, hw])) fun _ v hv => ?_
  refine traced_bind (traced_while (J := On text) (fun u hu hjoint => ?_) hv) fun _ u hu =>
    traced_demand fun ht => ⟨hu.1, ht⟩
  refine traced_bind (traced_skip hu.standing ?_) fun _ t ht =>
    traced_imp (traced_expect ht.standing (by decide) (by decide)) fun _ _ hs => hs.on
  cases hc : u.cursor.current.kind <;> simp_all [isJoint, Cursor.isAny, Token.isFinish]

/-- Past the brackets of an array, if they are there, stands a curly one or a parenthesis. -/
theorem traced_arrayMark (h : On text w)
    (hw : w.cursor.isAny [.openParen, .openBracket, .openCurly] = true) :
    Traced parsing text arrayMark w fun _ v => On text v ∧
      v.cursor.isAny [.openParen, .openCurly] = true := by
  refine traced_ifLook (fun hopen => ?_) fun hopen => traced_pure ⟨h, ?_⟩
  · have hk : w.cursor.current.kind = .openBracket := by simpa [Cursor.isKind] using hopen
    refine traced_bind (traced_skip h.standing (by simp [Token.isFinish, hk])) fun _ v hv => ?_
    refine traced_bind (traced_expect hv.standing (by decide) (by decide)) fun _ u hu => ?_
    refine traced_bind (Q := fun _ t => t = u ∧ u.cursor.current.kind = .openCurly)
      (traced_demand fun ht => ⟨rfl, by simpa [Cursor.isKind] using ht⟩) ?_
    rintro _ _ ⟨rfl, hk⟩
    exact traced_pure ⟨hu.on, by simp [Cursor.isAny, hk]⟩
  · cases hc : w.cursor.current.kind <;> simp_all [Cursor.isAny, Cursor.isKind]

/-- Past a comma another member may start. -/
theorem traced_comma (h : On text w) :
    Traced parsing text comma w fun next v => if next.1 then Anew text v else On text v := by
  refine traced_ifLook (fun hcomma => ?_) fun _ => traced_pure h
  have hk : w.cursor.current.kind = .comma := by simpa [Cursor.isKind] using hcomma
  exact traced_bind (traced_advance h.standing (by simp [Token.isFinish, hk]) (by simp [hk]))
    fun _ v hv => traced_pure hv

/-- To look ahead moves no walk. -/
theorem traced_lookAhead : Traced parsing text lookAhead w fun _ v => v = w := by
  refine traced_look ?_
  refine traced_bind (traced_ofExcept (Q := fun _ v => v = w) fun _ => rfl) ?_
  rintro ahead _ rfl
  split
  · exact traced_bind (traced_ofExcept (Q := fun _ v => v = _) fun _ => rfl) fun _ _ h => traced_pure h
  · exact traced_pure rfl

theorem traced_literalValue (literal : String) :
    Traced parsing text (literalValue parsing literal) w fun _ v => v = w :=
  traced_look (traced_ofExcept fun _ => rfl)

/-- Past a literal, and the row of literals that it starts. -/
theorem traced_literal (h : Standing text w) (hw : w.cursor.current.kind = .stringLiteral) :
    Traced parsing text (literal parsing) w fun _ => On text := by
  have hadvance : Traced parsing text advance w fun _ => On text :=
    traced_skip h (by simp [Token.isFinish, hw])
  refine traced_bind traced_lookAhead ?_
  rintro _ _ rfl
  refine traced_look ?_
  refine traced_bind (traced_literalValue _) ?_
  rintro value _ rfl
  -- By its quotes: a character is one token, a string a row of them.
  split
  · split
    · exact traced_fail
    · exact hadvance
  · refine traced_bind (Q := fun _ => On text) (traced_bind hadvance fun _ v hv => ?_)
      fun joined v hv => traced_bind (traced_literalValue joined) ?_
    -- Each round of the row goes past a literal.
    · refine traced_repeatStep (J := On text) (fun joined u hu => traced_look ?_) hv
      split
      · rename_i hk
        exact traced_bind (traced_skip hu.standing (by simp [Token.isFinish, hk]))
          fun _ t ht => traced_pure ht
      · exact traced_pure hu
    · rintro _ _ rfl
      exact traced_pure hv

/-! ## §5. Parts of bodies that call rules. -/

/-- What holds where a rule is entered. -/
def Starts (text : List Char) : Rule → Walk (List Nat) → Prop
  | operand => fun w => Begins text w.cursor
  | primary | member | argumentList | elementAccess | parenthesized => Standing text
  | creation => fun w => Standing text w ∧ w.cursor.current.kind = .identifier
  | .text => fun w => Standing text w ∧ w.cursor.current.kind = .stringLiteral
  | nameChain => On text
  | _ => Anew text

/-- What holds where a rule is left.  No dot comes after an operand, as that would be a part of it. -/
def Leads (text : List Char) (r : Rule) (v : Walk (List Nat)) : Prop :=
  On text v ∧ (r = operand ∨ r = unary → v.cursor.current.kind ≠ .dot)

/-- The calls of a body can be traced. -/
def Traces (parsing : Parsing) (text : List Char) (call : Rule → Locator Unit) : Prop :=
  ∀ r w, Starts text r w → Traced parsing text (call r) w fun _ => Leads text r

variable {call : Rule → Locator Unit}

/-- Operators after an operand; after each of them an operand may start. -/
theorem traced_operatorLoop {x : Locator Unit} {isOperator : Cursor → Bool}
    (hoperator : ∀ c, isOperator c = true → c.current.isFinish = false ∧ c.current.kind ≠ .dot)
    (hx : ∀ v, Anew text v → Traced parsing text x v fun _ => On text) (h : On text w) :
    Traced parsing text (repeatWhile isOperator do advance; x) w fun _ => On text := by
  refine traced_imp (traced_while (J := On text) (fun v hv htest => ?_) h) fun _ _ hv => hv.1
  obtain ⟨hfinish, hdot⟩ := hoperator _ htest
  exact traced_bind (traced_advance hv.standing hfinish hdot) fun _ => hx

/-- Operands with operators between them: every one of them begins anew. -/
theorem traced_chain (hcall : Traces parsing text call) {rule sub : Rule} {isOperator : Cursor → Bool}
    (hoperators : rule.operators? = some (sub, isOperator)) (h : Anew text w) :
    Traced parsing text (body parsing call rule) w fun _ => On text := by
  have hsub : ∀ v, Anew text v → Traced parsing text (call sub) v fun _ => On text := by
    intro v hv
    refine traced_imp (hcall sub v ?_) fun _ _ hu => hu.1
    cases rule <;> cases hoperators <;> exact hv
  rw [body_operators hoperators]
  refine traced_bind (hsub w h) fun _ v hv => traced_operatorLoop (fun c htest => ?_) hsub hv
  exact ⟨beq_eq_false_iff_ne.2 (operators?_kind_ne hoperators htest (by decide)),
    operators?_kind_ne hoperators htest (by decide)⟩

/-- The rule for whole expressions, after one of the kinds that come before it. -/
theorem traced_further (hcall : Traces parsing text call) (h : Standing text w)
    (hw : w.cursor.current.isFinish = false) (hdot : w.cursor.current.kind ≠ .dot) :
    Traced parsing text (do advance; call conditional) w fun _ => On text :=
  traced_bind (traced_advance h hw hdot) fun _ v hv =>
    traced_imp (hcall conditional v hv) fun _ _ hu => hu.1

/-- The branches of a conditional begin anew. -/
theorem traced_choice (hcall : Traces parsing text call) (h : On text w) :
    Traced parsing text (choice call) w fun _ => On text := by
  refine traced_onlyIf (fun hquestion => ?_) fun _ => h
  have hk : w.cursor.current.kind = .question := by simpa [Cursor.isKind] using hquestion
  refine traced_bind (traced_advance h.standing (by simp [Token.isFinish, hk]) (by simp [hk]))
    fun _ v hv => traced_bind (hcall conditional v hv) fun _ u hu => ?_
  exact traced_bind (traced_expect hu.1.standing (by decide) (by decide)) fun _ t ht =>
    traced_imp (hcall conditional t ht) fun _ _ hs => hs.1

/-- What stands behind `??` keeps the discipline. -/
theorem traced_fallback (hcall : Traces parsing text call) (h : On text w) :
    Traced parsing text (fallback call) w fun _ => On text := by
  refine traced_onlyIf (fun hcoalesce => ?_) fun _ => h
  have hk : w.cursor.current.kind = .coalesce := by simpa [Cursor.isKind] using hcoalesce
  exact traced_further hcall h.standing (by simp [Token.isFinish, hk]) (by simp [hk])

/-- What stands behind an arrow keeps it. -/
theorem traced_arrow (hcall : Traces parsing text call) (h : On text w) :
    Traced parsing text (arrow call) w fun _ => On text := by
  refine traced_onlyIf (fun harrow => ?_) fun _ => h
  have hk : w.cursor.current.kind = .arrow := by simpa [Cursor.isKind] using harrow
  refine traced_bind (traced_advance h.standing (by simp [Token.isFinish, hk]) (by simp [hk]))
    fun _ v hv => ?_
  refine traced_bind (Q := fun _ => On text) (traced_onlyIf (fun _ => ?_) fun _ => hv.on) fun _ u hu =>
    traced_demand fun _ => hu
  exact traced_imp (hcall conditional v hv) fun _ _ hu => hu.1

/-- Elements of a list in parentheses start after its parenthesis or after whatever is taken for a
comma; that is no dot, as no dot comes after an operand. -/
theorem traced_listElement (hcall : Traces parsing text call) (operator : Token) (h : On text w)
    (hw : w.cursor.current.isFinish = false ∧ w.cursor.current.kind ≠ .dot) :
    Traced parsing text (listElement call operator) w fun _ v => On text v ∧
      v.cursor.current.isFinish = false ∧ v.cursor.current.kind ≠ .dot := by
  refine traced_bind (traced_advance h.standing hw.1 hw.2)
    fun _ v hv => traced_bind (hcall .unary v hv) fun _ u hu => ?_
  exact traced_ifLook (fun _ => traced_failAt) fun hfinish =>
    traced_pure ⟨hu.1, hfinish, hu.2 (.inr rfl)⟩

/-- The elements of a list begin anew, and so does a single operand after `in`. -/
theorem traced_container (hcall : Traces parsing text call) (h : On text w)
    (hw : startsContainment w.cursor = true) :
    Traced parsing text (container call) w fun _ => On text := by
  refine traced_look (traced_bind (traced_containmentOperator h hw) fun _ v hv => traced_look ?_)
  split
  · rename_i hk
    refine traced_bind (traced_while (J := fun u => On text u ∧ u.cursor.current.isFinish = false ∧
        u.cursor.current.kind ≠ .dot) (fun u hu _ => traced_listElement hcall _ hu.1 hu.2)
      ⟨hv.on, by simp [Token.isFinish, hk], by simp [hk]⟩) fun _ u hu => ?_
    exact traced_skip hu.1.1.standing hu.1.2.1
  · rename_i hk
    exact traced_imp (hcall operand v (hv.begins_of_name hk)) fun _ _ hu => hu.1
  · exact traced_failAt

/-- What is attached to an operand begins no operand of its own, except in brackets. -/
theorem traced_attachment (hcall : Traces parsing text call) (h : On text w) :
    Traced parsing text (attachment call) w fun _ => On text := by
  refine traced_look ?_
  split
  · rename_i hk
    refine traced_bind (traced_skip h.standing (by simp [Token.isFinish, hk])) fun _ v hv => ?_
    exact traced_imp (hcall member v hv.standing) fun _ _ hu => hu.1
  · exact .refuse trivial (.inl (.inl rfl))
  · exact traced_imp (hcall elementAccess w h.standing) fun _ _ hu => hu.1

/-- **The operands that leave something open**: one that is over with the text, and one that fails. -/
theorem traced_operand {budget : Nat} (hcall : Traces parsing text (run parsing budget))
    (h : Begins text w.cursor) :
    Traced parsing text (run parsing (budget + 1) operand) w fun _ => Leads text operand := by
  have hparts : Traced parsing text
      (do run parsing budget primary; attached (run parsing budget)) (opened w)
      fun _ v => On text v ∧ isAttached v.cursor = false :=
    traced_bind (hcall primary _ h.stands) fun _ v hv =>
      traced_while (fun u hu _ => traced_attachment hcall hu) hv.1
  have hrestores : Restores (do run parsing budget primary; attached (run parsing budget)) :=
    restores_bind (restores_run parsing budget primary) fun _ =>
      restores_attached (restores_run parsing budget)
  have hrun : (run parsing (budget + 1) operand).run w =
      ((do run parsing budget primary; attached (run parsing budget) : Locator Unit).run
        (opened w)).andThen fun _ => closeOperand :=
    (Walk.Outcome.andThen_assoc _ (fun _ => attached (run parsing budget)) fun _ => closeOperand).symm
  -- The operand is open as long as its parts are read; only a text that is over leaves it so.
  refine ⟨fun _ _ => trivial, ?_⟩
  cases hx : (do run parsing budget primary; attached (run parsing budget) : Locator Unit).run
      (opened w) with
  -- A failure further in leaves the operand open, unless it is one that stopped the walk before.
  | error failure x =>
    rw [hx] at hrun
    rw [hrun]
    rcases hparts.error hx with (hheld | hover) | hbroken
    · exact .inr ⟨x, ⟨budget + 1, w, h, hheld, hrun⟩, rfl⟩
    · exact .inl (.inr hover)
    · exact .inr hbroken
  | ok _ x =>
    rw [hx] at hrun
    have hrun : (run parsing (budget + 1) operand).run w = .ok () (closed x) := hrun
    rw [hrun]
    obtain ⟨⟨hon, hattached⟩, hkept⟩ := hparts.ok hx
    refine ⟨⟨hon, fun _ hdot => ?_⟩, ?_⟩
    -- The loop of attachments would have gone on at a dot.
    · have hdot : x.cursor.current.kind = .dot := hdot
      simp [isAttached, Cursor.isAny, hdot] at hattached
    -- Before the end of the text the operand is closed, at the end it stays open.
    cases hfinish : x.cursor.current.isFinish with
    | false =>
      refine .inl ?_
      have hheld : x.held = w.cursor.current.start :: w.held := ((hrestores _).ok hx).closed hfinish
      simp [closed, hfinish, hheld]
    | true =>
      have hclosed : (closed x).held = x.held := if_pos hfinish
      refine .inr (hclosed ▸ ?_)
      rcases hkept with hheld | hover
      · exact ⟨closed x, ⟨budget + 1, w, h, hheld, hrun⟩, hfinish, hclosed⟩
      · exact hover

/-- After an operator of one operand another one may begin. -/
theorem traced_unary (hcall : Traces parsing text call) (h : Anew text w) :
    Traced parsing text (body parsing call unary) w fun _ => Leads text unary := by
  have hleads : ∀ {r}, r = operand ∨ r = unary → ∀ v, Leads text r v → Leads text unary v :=
    fun hr v hv => ⟨hv.1, fun _ => hv.2 hr⟩
  refine traced_nested (traced_ifLook (fun hsign => ?_) fun hsign => ?_)
  · have hsign : isSign w.cursor = true := hsign
    -- A sign is neither the end of the text nor a dot.
    have hw : w.cursor.current.isFinish = false ∧ w.cursor.current.kind ≠ .dot := by
      cases hc : w.cursor.current.kind <;>
        simp_all [isSign, Cursor.isAny, Cursor.isWord, Token.isFinish]
    have hdot : some w.cursor.current.kind ≠ some .dot := by simpa using hw.2
    refine traced_look (traced_bind (traced_onward (P := (· ≠ some .dot)) (w := w.deeper) h.standing
      hw.1 hdot) fun _ v hv => traced_look ?_)
    obtain ⟨hv, hnext⟩ := hv
    -- A minus before a number becomes part of it, so the operand starts with the minus.
    split
    · rename_i hfold
      obtain ⟨hminus, hnumber⟩ := Bool.and_eq_true .. ▸ hfold
      obtain ⟨past, hreached, hpast⟩ := h
      refine traced_bind (traced_edit (Q := fun _ u => u = _) rfl) ?_
      rintro _ _ rfl
      have hbegins := Begins.negated hreached hpast (of_decide_eq_true hminus) hnext hnumber
      exact traced_imp (hcall operand _ hbegins) fun _ u hu => hleads (.inl rfl) _ hu
    · exact traced_imp (hcall unary v hv) fun _ u hu => hleads (.inr rfl) _ hu
  -- Without a sign the operand begins where the rule does.
  · obtain ⟨past, hreached, hpast⟩ := h
    exact traced_imp (hcall operand _ (.plain hreached hpast hsign)) fun _ u hu =>
      hleads (.inl rfl) _ hu

/-- A member, with what stands behind its name. -/
theorem traced_member (hcall : Traces parsing text call) (h : Standing text w) :
    Traced parsing text (body parsing call member) w fun _ => On text := by
  refine traced_bind (Q := fun _ v => v = w ∧ w.cursor.current.kind = .identifier)
    (traced_demand fun ht => ⟨rfl, by simpa [Cursor.isKind] using ht⟩) ?_
  rintro _ _ ⟨rfl, hk⟩
  refine traced_bind (traced_edit (Q := fun _ v => v = _) rfl) ?_
  rintro _ _ rfl
  obtain ⟨past, h⟩ := h
  refine traced_bind (traced_skip ⟨past, h.reword _⟩ (by simp [Token.isFinish, Cursor.reword, hk]))
    fun _ v hv => traced_ifLook (fun harrow => ?_) fun _ => ?_
  · have hk : v.cursor.current.kind = .arrow := by simpa [Cursor.isKind] using harrow
    exact traced_further hcall hv.standing (by simp [Token.isFinish, hk]) (by simp [hk])
  · refine traced_bind (Q := fun _ => On text)
      (traced_onlyIf (fun _ => traced_imp (hcall nameChain v hv) fun _ _ hu => hu.1) fun _ => hv)
      fun _ u hu => traced_onlyIf (fun _ => ?_) fun _ => hu
    exact traced_imp (hcall argumentList u hu.standing) fun _ _ ht => ht.1

/-- The names of a chain, and the member that may go on from it. -/
theorem traced_nameChain (hcall : Traces parsing text call) (h : On text w) :
    Traced parsing text (body parsing call nameChain) w fun _ => On text := by
  refine traced_bind (traced_while (J := On text) (fun v hv hjoint => ?_) h) fun _ v hv =>
    traced_onlyIf (fun _ => traced_imp (hcall member v hv.1.standing) fun _ _ hu => hu.1) fun _ => hv.1
  refine traced_bind (traced_skip hv.standing ?_) fun _ u hu =>
    traced_onlyIf (fun hname => ?_) fun _ => hu
  · cases hc : v.cursor.current.kind <;> simp_all [isJoint, Cursor.isAny, Token.isFinish]
  · have hk : u.cursor.current.kind = .identifier := by simpa [Cursor.isKind] using hname
    exact traced_skip hu.standing (by simp [Token.isFinish, hk])

/-- An operand by itself, by its first token. -/
theorem traced_primary (hcall : Traces parsing text call) (h : Standing text w) :
    Traced parsing text (body parsing call primary) w fun _ => On text := by
  refine traced_look ?_
  split <;> rename_i hk
  · refine traced_ifLook (fun _ => ?_) fun _ => ?_
    · exact traced_imp (hcall creation w ⟨h, hk⟩) fun _ _ hv => hv.1
    · exact traced_imp (hcall member w h) fun _ _ hv => hv.1
  · exact traced_imp (hcall .text w ⟨h, hk⟩) fun _ _ hv => hv.1
  · exact traced_skip h (by simp [Token.isFinish, hk])
  · exact traced_skip h (by simp [Token.isFinish, hk])
  · exact traced_imp (hcall parenthesized w h) fun _ _ hv => hv.1
  · exact traced_fail

/-- Something between two brackets. -/
theorem traced_bracketed (h : Standing text w) {opening closing : TokenKind} {cause cause' : Cause}
    {inner : Locator Unit} (hopening : opening ≠ .finish ∧ opening ≠ .dot)
    (hclosing : closing ≠ .finish ∧ closing ≠ .dot)
    (hinner : ∀ v, Anew text v → Traced parsing text inner v fun _ => On text) :
    Traced parsing text (do
      expect opening cause
      inner
      expect closing cause') w fun _ => On text :=
  traced_bind (traced_expect h hopening.1 hopening.2) fun _ v hv =>
    traced_bind (hinner v hv) fun _ _ hu =>
      traced_imp (traced_expect hu.standing hclosing.1 hclosing.2) fun _ _ ht => ht.on

/-- A creation: each of its members begins anew. -/
theorem traced_creation (hcall : Traces parsing text call) (h : Standing text w)
    (hw : w.cursor.current.kind = .identifier) :
    Traced parsing text (body parsing call creation) w fun _ => On text := by
  refine traced_bind (traced_skip h (by simp [Token.isFinish, hw])) fun _ v hv => ?_
  -- Behind `new` comes a bracket, with the name of a type before it or without.
  refine traced_bind (Q := fun _ u => u = v ∧
      v.cursor.isAny [.openParen, .openCurly, .openBracket, .identifier] = true)
    (traced_demand fun ht => ⟨rfl, ht⟩) ?_
  rintro _ v ⟨rfl, hany⟩
  refine traced_bind (Q := fun _ u => On text u ∧
      u.cursor.isAny [.openParen, .openBracket, .openCurly] = true)
    (traced_onlyIf (fun hname => ?_) fun hname => ⟨hv, ?_⟩) fun _ u hu => ?_
  · exact traced_createdType hv (by simpa [Cursor.isKind] using hname)
  · cases hc : v.cursor.current.kind <;> simp_all [Cursor.isAny, Cursor.isKind]
  refine traced_bind (traced_arrayMark hu.1 hu.2) fun isArray t ht => ?_
  -- On a bracket the text is not over.
  have hkind : t.cursor.current.isFinish = false ∧ t.cursor.current.kind ≠ .dot := by
    obtain ⟨-, hany⟩ := ht
    cases hc : t.cursor.current.kind <;> simp_all [Cursor.isAny, Token.isFinish]
  refine traced_bind (traced_advance ht.1.standing hkind.1 hkind.2) fun _ s hs => ?_
  refine traced_bind (Q := fun _ => On text) ?_ fun _ q hq => ?_
  -- Each member begins anew, behind the bracket or behind a comma.
  · refine traced_repeatStep (J := Anew text) (fun _ q hq => ?_) hs
    refine traced_ifLook (fun _ => traced_pure hq.on) fun _ => ?_
    refine traced_bind (Q := fun _ => On text) (traced_bind (hcall conditional q hq) fun _ p hp => ?_)
      fun _ p hp => traced_comma hp
    refine traced_onlyIf (fun hword => ?_) fun _ => hp.1
    have hk : p.cursor.current.isFinish = false := by
      cases hc : p.cursor.current.kind <;> simp_all [Cursor.isWord, Token.isFinish]
    exact traced_bind (traced_skip hp.1.standing hk) fun _ o ho =>
      traced_bind (traced_aliasName _ ho) fun _ _ hn => traced_pure hn
  · refine traced_bind (Q := fun _ p => p = q ∧ q.cursor.isAny [.closeParen, .closeCurly] = true)
      (traced_demand fun ht => ⟨rfl, ht⟩) ?_
    rintro _ p ⟨rfl, hany⟩
    refine traced_skip hq.standing ?_
    cases hc : p.cursor.current.kind <;> simp_all [Cursor.isAny, Token.isFinish]

/-! ## §6. Bodies and runs. -/

/-- **Every rule can be traced if its calls can.** -/
theorem traced_body {budget : Nat} (hcall : Traces parsing text (run parsing budget)) (r : Rule)
    (h : Starts text r w) :
    Traced parsing text (run parsing (budget + 1) r) w fun _ => Leads text r := by
  -- Of operands alone it is asked that no dot comes after them.
  have hleads : ∀ {x : Locator Unit}, (r ≠ operand ∧ r ≠ unary) →
      Traced parsing text x w (fun _ => On text) → Traced parsing text x w fun _ => Leads text r :=
    fun hr hx => traced_imp hx fun _ _ hv => ⟨hv, fun hor => absurd hor (not_or.2 hr)⟩
  cases r with
  | operand => exact traced_operand hcall h
  | unary => exact traced_unary hcall h
  | conditional =>
    refine hleads (by decide) (traced_nested ?_)
    exact traced_bind (hcall coalescing w.deeper h) fun _ v hv => traced_choice hcall hv.1
  | coalescing =>
    exact hleads (by decide) (traced_bind (hcall projection w h) fun _ v hv =>
      traced_fallback hcall hv.1)
  | projection =>
    exact hleads (by decide) (traced_bind (hcall disjunction w h) fun _ v hv =>
      traced_arrow hcall hv.1)
  | disjunction | conjunction | bitwise | comparison | shift | sum | product =>
    exact hleads (by decide) (traced_chain hcall rfl h)
  | containment =>
    refine hleads (by decide) (traced_bind (hcall bitwise w h) fun _ v hv => ?_)
    exact traced_imp (traced_while (fun _ hu htest => traced_container hcall hu htest) hv.1)
      fun _ _ hu => hu.1
  | primary => exact hleads (by decide) (traced_primary hcall h)
  | member => exact hleads (by decide) (traced_member hcall h)
  | nameChain => exact hleads (by decide) (traced_nameChain hcall h)
  | argumentList =>
    refine hleads (by decide) (traced_bracketed h (by decide) (by decide) fun v hv => ?_)
    exact traced_onlyIf (fun _ => traced_imp (hcall arguments v hv) fun _ _ hu => hu.1) fun _ => hv.on
  | arguments =>
    have hargument : ∀ v, Anew text v →
        Traced parsing text (run parsing budget argument) v fun _ => On text :=
      fun v hv => traced_imp (hcall argument v hv) fun _ _ hu => hu.1
    refine hleads (by decide) (traced_bind (hargument w h) fun _ v hv =>
      traced_operatorLoop (fun c hcomma => ?_) hargument hv)
    have hk : c.current.kind = .comma := by simpa [Cursor.isKind] using hcomma
    simp [Token.isFinish, hk]
  -- What is discarded is gone past; everything else begins as the argument does.
  | argument =>
    refine hleads (by decide) (traced_bind (traced_discardedOut h) fun found v hv => ?_)
    cases found with
    | true => exact traced_pure hv
    | false =>
      cases hv
      exact traced_imp (hcall conditional _ h) fun _ _ hu => hu.1
  | elementAccess =>
    exact hleads (by decide) (traced_bracketed h (by decide) (by decide) fun v hv =>
      traced_imp (hcall arguments v hv) fun _ _ hu => hu.1)
  | creation => exact hleads (by decide) (traced_creation hcall h.1 h.2)
  | parenthesized =>
    exact hleads (by decide) (traced_bracketed h (by decide) (by decide) fun v hv =>
      traced_imp (hcall conditional v hv) fun _ _ hu => hu.1)
  | text => exact hleads (by decide) (traced_literal h.1 h.2)

/-- **Every rule can be traced, whatever its budget.** -/
theorem traces_run (parsing : Parsing) (text : List Char) (budget : Nat) :
    Traces parsing text (run parsing budget) := by
  induction budget with
  | zero => exact fun _ _ _ => traced_fail
  | succ budget ih => exact fun r w h => traced_body ih r h

end Rule

/-- **What is open at the end of a walk** was opened by an operand that is over with the text or has
failed with the walk, if anything is open. -/
theorem origin_of_walk (parsing : Parsing) {c : Cursor} (hopen : Cursor.open? text = .ok c) :
    match walk parsing c with
    | .ok _ v => v.held = [] ∨ Over parsing text v.held
    | .error failure v =>
      (v.held = [] ∨ Over parsing text v.held) ∨ Broken parsing text failure v.held := by
  have hanew : Anew text ⟨c, 0, []⟩ := ⟨[], .first hopen, nofun⟩
  have hwalk := Rule.traces_run parsing text (Rule.budget c.size) .conditional ⟨c, 0, []⟩ hanew
  cases hrun : walk parsing c with
  | ok _ v => exact (hwalk.ok hrun).2
  | error failure v => exact hwalk.error hrun

end TypeAhead.Fragment
