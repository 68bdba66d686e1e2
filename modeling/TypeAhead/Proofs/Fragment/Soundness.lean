/-
  TypeAhead.Proofs.Fragment.Soundness — THE STACK HOLDS STARTS OF TOKENS, IN ORDER.

  At every moment of a walk the stack of open operands rises from the bottom to
  the top, the top is no further than the current token, and each offset on it is
  the start of a token at which an operand may open.  Null propagation is refused
  only where it stands in the text.

  Rules differ in what they need: most start at a token as it was read, an operand
  also at a number with its minus, and what is part of an operand after it was
  opened.  `Entry` says so for each rule, `Exit` says how rules are left.

      Rule.sound_body    the bodies keep the order if the calls do
      Rule.sound_run     every rule keeps it
-/
import TypeAhead.Proofs.Fragment.Discipline
import TypeAhead.Proofs.Fragment.NameChain
import TypeAhead.Proofs.Literal.Closed
import TypeAhead.Proofs.Walk.Contract

namespace TypeAhead.Fragment

open Walker

/-! ## §1. Walks in order. -/

/-- A token of the text starts at the offset, and an operand may open there. -/
def Opened (text : List Char) (start : Nat) : Prop :=
  ∃ past c, Reaches text past c ∧ c.current.start = start ∧ Openable past

/-- The stack is in order, and the walk is somewhere in the text, not before `low`; nor is anything
open that was opened before it. -/
structure Sound (text : List Char) (low : Nat) (w : Walk (List Nat)) : Prop where
  placed : ∃ past, Stands text past w.cursor
  /-- A literal is worded as it is in the text. -/
  literal : w.cursor.current.kind = .stringLiteral → ∃ past, Reaches text past w.cursor
  opened : ∀ start ∈ w.held, Opened text start
  ordered : w.held.Pairwise (· > ·)
  below : ∀ start ∈ w.held, start ≤ w.cursor.current.start
  depth : w.depth ≤ Limits.nesting
  low_le : low ≤ w.cursor.current.start
  low_le_opened : ∀ start ∈ w.held, low ≤ start

/-- The walk is at a token as it was read, past all that is open, and `P` holds of the kinds before
it and its own. -/
structure Clear (text : List Char) (low : Nat) (P : List TokenKind → TokenKind → Prop)
    (w : Walk (List Nat)) : Prop extends Sound text low w where
  past_open : ∀ start ∈ w.held, start < w.cursor.current.start
  reached : ∃ past, Reaches text past w.cursor ∧ P past w.cursor.current.kind

/-- The walk is where an operand may open. -/
abbrev Fresh (text : List Char) (low : Nat) : Walk (List Nat) → Prop :=
  Clear text low fun past _ => Openable past

/-- A failure that a walk of the text may have: a fault, which for a row of literals that is not closed
is where the row is over, or a null propagation of the text. -/
def Excused (text : List Char) : Failure → Prop
  | .fault ⟨.literalNotClosed, position⟩ => ∃ c d, MixedRow text c d ∧ d.current.start = position
  | .fault fault => fault.cause.isPlain = true
  | .propagation position => Propagates text position
  | _ => False

/-- How rules fail. -/
def Fails (text : List Char) (low : Nat) (failure : Failure) (w : Walk (List Nat)) : Prop :=
  Sound text low w ∧ Excused text failure

variable {text : List Char} {low : Nat} {past : List TokenKind} {w v : Walk (List Nat)}
  {P R : List TokenKind → TokenKind → Prop}

/-- Less may be said of the kinds around the token. -/
theorem Clear.imp (h : Clear text low P w)
    (hP : ∀ past, P past w.cursor.current.kind → R past w.cursor.current.kind) :
    Clear text low R w := by
  obtain ⟨past, hreached, hpast⟩ := h.reached
  exact ⟨h.toSound, h.past_open, past, hreached, hP past hpast⟩

/-- The depth plays no part but to be within its limit. -/
theorem Sound.at_depth (h : Sound text low w) {depth : Nat} (hdepth : depth ≤ Limits.nesting) :
    Sound text low { w with depth := depth } :=
  ⟨h.placed, h.literal, h.opened, h.ordered, h.below, hdepth, h.low_le, h.low_le_opened⟩

/-- The depth does not matter to the stack, as long as it is within the limit. -/
theorem Clear.at_depth (h : Clear text low P w) {depth : Nat} (hdepth : depth ≤ Limits.nesting) :
    Clear text low P { w with depth := depth } :=
  ⟨h.toSound.at_depth hdepth, h.past_open, h.reached⟩

/-- A failed walk that goes back to where it was less deep. -/
theorem Fails.shallower {failure : Failure} (h : Fails text low failure v) :
    Fails text low failure v.shallower :=
  ⟨h.1.at_depth (Nat.le_trans (Nat.sub_le _ _) h.1.depth), h.2⟩

/-- A plain fault needs no excuse. -/
theorem excused_of_isPlain {fault : Fault} (h : fault.cause.isPlain = true) :
    Excused text (.fault fault) := by
  obtain ⟨cause, position⟩ := fault
  cases cause <;> first | exact h | cases h

/-- A plain fault at a walk in order is one that a walk may have. -/
theorem Sound.fails (h : Sound text low w) {fault : Fault} (hplain : fault.cause.isPlain = true) :
    Fails text low (.fault fault) w :=
  ⟨h, excused_of_isPlain hplain⟩

/-! ## §2. What rules need and how they are left. -/

/-- What holds where a rule is entered. -/
def Rule.Entry (text : List Char) (low : Nat) : Rule → Walk (List Nat) → Prop
  | .operand => fun w =>
    Sound text low w ∧ (∀ start ∈ w.held, start < w.cursor.current.start) ∧
      Opened text w.cursor.current.start ∧
      ∃ past, Stands text past w.cursor ∧ endsInChain (.identifier :: past) = false
  | .primary | .member | .parenthesized => fun w =>
    Sound text low w ∧ ∃ past, Stands text past w.cursor ∧ endsInChain (.identifier :: past) = false
  | .creation => fun w => Sound text low w ∧ w.cursor.current.kind = .identifier
  | .text => fun w => Sound text low w ∧ w.cursor.current.kind = .stringLiteral
  | .nameChain => Clear text low fun _ kind => joins kind = true
  | .argumentList | .elementAccess => Sound text low
  | _ => Fresh text low

/-- What holds where a rule is left.  After an argument a chain of names may look open, as `out _`
is one only by its kinds. -/
def Rule.Exit (text : List Char) (low : Nat) : Rule → Walk (List Nat) → Prop
  | .argument | .arguments => Clear text low fun _ _ => True
  | _ => Clear text low Leaves

/-- The calls of a body keep the order. -/
def Orderly (text : List Char) (low : Nat) (call : Rule → Locator Unit) : Prop :=
  ∀ r w, Rule.Entry text low r w →
    Ensures (call r) w (Sound text low) (fun _ v => Rule.Exit text low r v) (Fails text low)

/-- Where an operand may open, the rule for operands may be entered. -/
theorem Clear.entry_operand (h : Fresh text low w) : Rule.Entry text low .operand w := by
  obtain ⟨past, hreached, hopen⟩ := h.reached
  exact ⟨h.toSound, h.past_open, ⟨past, _, hreached, rfl, hopen⟩, past, .of_reaches hreached,
    hopen.name⟩

/-! ## §3. Moves. -/

/-- The token at the end of a text has no characters. -/
theorem text_of_finish {c : Cursor} (h : Reaches text past c) (hc : c.current.isFinish = true) :
    c.current.text = "" := by
  obtain ⟨-, -, read, lexeme, hd⟩ := h.split
  have hkind : c.current.kind = .finish := Token.isFinish_iff.1 hc
  rw [hd.lexeme_eq, hd.finish_iff.1 hkind]

/-- Going on from a token of the text leads past it and past all that is open. -/
theorem sound_onward (h : Sound text low w) (hpast : Stands text past w.cursor)
    (hw : w.cursor.current.isFinish = false)
    (hP : ∀ next, P (w.cursor.current.kind :: past) next) :
    Ensures advance w (Sound text low) (fun _ v => Clear text low P v ∧ v.held = w.held ∧
      w.cursor.current.start < v.cursor.current.start) (Fails text low) := by
  refine .advance h ?_ fun _ hfault => h.fails (Cursor.isPlain_of_next hfault)
  intro c hnext
  obtain ⟨hreached, hlt⟩ := hpast.next hw hnext
  have hbelow : ∀ start ∈ w.held, start < c.current.start :=
    fun start hstart => Nat.lt_of_le_of_lt (h.below start hstart) hlt
  have hsound : Sound text low { w with cursor := c } :=
    ⟨⟨_, .of_reaches hreached⟩, fun _ => ⟨_, hreached⟩, h.opened, h.ordered, fun s hs => Nat.le_of_lt (hbelow s hs), h.depth,
      Nat.le_of_lt (Nat.lt_of_le_of_lt h.low_le hlt), h.low_le_opened⟩
  exact ⟨hsound, ⟨hsound, hbelow, _, hreached, hP _⟩, rfl, hlt⟩

/-- Going past a token that was read leads to a walk past all that is open. -/
theorem sound_advance (h : Sound text low w) (hpast : Stands text past w.cursor)
    (hw : w.cursor.current.isFinish = false)
    (hP : ∀ next, P (w.cursor.current.kind :: past) next) :
    Ensures advance w (Sound text low) (fun _ v => Clear text low P v) (Fails text low) :=
  (sound_onward h hpast hw hP).imp (fun _ _ hv => hv.1) fun _ _ hv => hv

/-- From a token as it was read, what follows depends on the kinds before it. -/
theorem Clear.advance (h : Clear text low P w) (hw : w.cursor.current.isFinish = false)
    (hP : ∀ past, P past w.cursor.current.kind → ∀ next, R (w.cursor.current.kind :: past) next) :
    Ensures advance w (Sound text low) (fun _ v => Clear text low R v) (Fails text low) := by
  obtain ⟨past, hreached, hpast⟩ := h.reached
  exact sound_advance h.toSound (.of_reaches hreached) hw (hP past hpast)

/-- A symbol goes past any token in order. -/
theorem sound_expect {kind : TokenKind} {cause : Cause} (h : Sound text low w)
    (hfinish : kind ≠ .finish) (hcause : cause.isPlain = true)
    (hP : ∀ past next, P (kind :: past) next) :
    Ensures (expect kind cause) w (Sound text low) (fun _ v => Clear text low P v) (Fails text low) := by
  refine Ensures.bind (Q := fun _ v => v = w ∧ w.cursor.current.kind = kind)
    (.demand h (fun hk => ⟨rfl, by simpa [Cursor.isKind] using hk⟩) fun _ => h.fails hcause) ?_
  rintro _ v ⟨rfl, rfl⟩
  obtain ⟨past, hstands⟩ := h.placed
  refine sound_advance h hstands ?_ (hP past)
  simpa [Token.isFinish] using hfinish

/-! ## §4. Parts of bodies. -/

namespace Rule

variable {parsing : Parsing} {call : Rule → Locator Unit}

/-- Operators after an operand: each operator is a token at which an operand may be left and after
which one may open. -/
theorem sound_operatorLoop {call : Locator Unit} {isOperator : Cursor → Bool}
    {R : List TokenKind → TokenKind → Prop}
    (hcall : ∀ w, Fresh text low w →
      Ensures call w (Sound text low) (fun _ v => Clear text low R v) (Fails text low))
    (hoperator : ∀ c past, isOperator c = true → R past c.current.kind →
      c.current.isFinish = false ∧ Openable (c.current.kind :: past))
    (budget : Option Nat) (h : Clear text low R w) :
    Ensures (goOn isOperator (do advance; call) budget) w (Sound text low)
      (fun _ v => Clear text low R v) (Fails text low) := by
  refine (Ensures.goOn (J := fun v => Clear text low R v) (fun _ hv => hv.toSound)
    (fun _ hv => hv.toSound.fails rfl) ?_ budget h).imp (fun _ _ hu => hu.1) fun _ _ hu => hu
  intro u hu htest
  obtain ⟨past, hreached, hpast⟩ := hu.reached
  obtain ⟨hfinish, hopen⟩ := hoperator _ past htest hpast
  exact (sound_advance hu.toSound (.of_reaches hreached) hfinish fun _ => hopen).bind
    fun _ t ht => hcall t ht

/-- The words and marks of a containment are not the end of the text. -/
theorem isFinish_of_startsContainment {c : Cursor} (h : startsContainment c = true) :
    c.current.isFinish = false := by
  cases hc : c.current.kind <;>
    simp_all [startsContainment, Cursor.isOneOf, Token.isFinish]

/-- Behind `in` an operand may open. -/
theorem sound_containmentOperator (h : Clear text low Leaves w)
    (hw : startsContainment w.cursor = true) :
    Ensures (containmentOperator w.cursor.current) w (Sound text low) (fun _ v => Fresh text low v)
      (Fails text low) := by
  have hfirst : Ensures advance w (Sound text low) (fun _ v => Fresh text low v) (Fails text low) :=
    h.advance (isFinish_of_startsContainment hw) fun _ hpast _ => openable_of_leaves hpast
  -- Either the walk is still at the operator, or past a negation and at `in`.
  refine Ensures.bind (Q := fun _ v => v = w ∨
      Fresh text low v ∧ v.cursor.current.kind = .identifier)
    (.onlyIf h.toSound (fun _ => ?_) fun _ => .inl rfl) ?_
  · refine hfirst.bind fun _ v hv => ?_
    refine .ifLook hv.toSound (fun hin => .pure hv.toSound (.inr ⟨hv, ?_⟩))
      fun _ => .failAt hv.toSound (hv.toSound.fails rfl)
    simp only [Cursor.isWord, Bool.and_eq_true, beq_iff_eq] at hin
    exact hin.1
  · rintro _ v (rfl | ⟨hv, hkind⟩)
    · exact hfirst
    · refine hv.advance (by simp [Token.isFinish, hkind]) fun past hopen _ => ?_
      rw [hkind]
      exact hopen.cons rfl

/-- A list in parentheses: its elements open after its parenthesis and after whatever is taken for
a comma. -/
theorem sound_listElement (hcall : Orderly text low call) {operator : Token}
    {R : List TokenKind → TokenKind → Prop} (hR : ∀ past next, R past next → Openable (next :: past))
    (h : Clear text low R w) (hw : w.cursor.current.isFinish = false) :
    Ensures (listElement call operator) w (Sound text low)
      (fun _ v => Clear text low (fun past next => Openable (next :: past)) v ∧
        v.cursor.current.isFinish = false) (Fails text low) := by
  refine (h.advance (R := fun past _ => Openable past) hw fun past hpast _ => hR _ _ hpast).bind
    fun _ v hv => ?_
  refine (hcall .unary v hv).bind fun _ u hu => ?_
  refine .ifLook hu.toSound (fun _ => .failAt hu.toSound (hu.toSound.fails rfl)) fun hfinish => ?_
  refine .pure hu.toSound ⟨hu.imp fun past => openable_of_leaves, ?_⟩
  exact hfinish

/-- The list or the sequence after `in`. -/
theorem sound_container (hcall : Orderly text low call) (h : Clear text low Leaves w)
    (hw : startsContainment w.cursor = true) :
    Ensures (container call) w (Sound text low) (fun _ v => Clear text low Leaves v) (Fails text low) := by
  refine Ensures.bind (Q := fun t v => t = w.cursor.current ∧ v = w) (.look h.toSound ⟨rfl, rfl⟩) ?_
  rintro _ _ ⟨rfl, rfl⟩
  refine (sound_containmentOperator h hw).bind fun _ v hv => ?_
  refine Ensures.bind (Q := fun k u => k = u.cursor.current.kind ∧ u = v)
    (.look hv.toSound ⟨rfl, rfl⟩) ?_
  rintro k _ ⟨hk, rfl⟩
  -- By the token behind the operator: a list, or an operand.
  split
  · refine Ensures.bind (Q := fun _ u => Sound text low u ∧ u.cursor.current.kind = .closeParen)
      ((Ensures.repeatWhile
        (J := fun u => Clear text low (fun past next => Openable (next :: past)) u ∧
          u.cursor.current.isFinish = false) (fun _ hu => hu.1.toSound)
        (fun _ hu => hu.1.toSound.fails rfl) (fun u hu _ => sound_listElement hcall
          (fun _ _ hopen => hopen) hu.1 hu.2) ⟨hv.imp fun past _ => ?_, ?_⟩).imp
        (fun _ u hu => ⟨hu.1.1.toSound, by simpa [Cursor.isKind] using hu.2⟩) fun _ _ hu => hu)
      fun _ u hu => ?_
    · rw [← hk]
      exact openable_cons_of_not rfl (by decide)
    · simp [Token.isFinish, ← hk]
    -- The loop is over at the parenthesis, behind which an operand may be left.
    · obtain ⟨hu, hkind⟩ := hu
      obtain ⟨past, hstands⟩ := hu.placed
      refine sound_advance hu hstands (by simp [Token.isFinish, hkind]) fun next => ?_
      rw [hkind]
      exact leaves_of_closed rfl (by decide)
  · exact hcall .operand _ hv.entry_operand
  · exact .failAt hv.toSound (hv.toSound.fails rfl)

/-- Any number of `in` one after the other, with a budget or without. -/
theorem sound_containerLoop (hcall : Orderly text low call) (budget : Option Nat)
    (h : Clear text low Leaves w) :
    Ensures (goOn startsContainment (container call) budget) w (Sound text low)
      (fun _ v => Clear text low Leaves v) (Fails text low) :=
  (Ensures.goOn (J := fun v => Clear text low Leaves v) (fun _ hv => hv.toSound)
    (fun _ hv => hv.toSound.fails rfl) (fun _ hv htest => sound_container hcall hv htest) budget h).imp
    (fun _ _ hu => hu.1) fun _ _ hu => hu

/-- Past a dot a member may follow, as no chain was left open before the dot. -/
theorem sound_attachment (hcall : Orderly text low call) (h : Clear text low Leaves w)
    (hw : w.cursor.isAny [.dot, .propagate, .openBracket] = true) :
    Ensures (attachment call) w (Sound text low) (fun _ v => Clear text low Leaves v) (Fails text low) := by
  obtain ⟨past, hreached, hpast⟩ := h.reached
  refine Ensures.bind (Q := fun k v => k = w.cursor.current.kind ∧ v = w) (.look h.toSound ⟨rfl, rfl⟩) ?_
  rintro k v ⟨hk, rfl⟩
  split
  · refine (h.advance (R := fun past _ => Openable past) (by simp [Token.isFinish, ← hk])
      fun _ hpast _ => openable_of_leaves hpast).bind fun _ u hu => ?_
    obtain ⟨past', hreached', hopen⟩ := hu.reached
    exact hcall .member u ⟨hu.toSound, past', .of_reaches hreached', hopen.name⟩
  · exact .refuse h.toSound ⟨h.toSound, past, _, hreached, hk.symm, rfl⟩
  · exact hcall .elementAccess _ h.toSound

/-- Members and indices after an operand, by the rule of loops. -/
theorem sound_attached (hcall : Orderly text low call) (h : Clear text low Leaves w) :
    Ensures (attached call) w (Sound text low) (fun _ v => Clear text low Leaves v) (Fails text low) :=
  (Ensures.repeatWhile (J := fun v => Clear text low Leaves v) (fun _ hv => hv.toSound)
    (fun _ hv => hv.toSound.fails rfl) (fun _ hv htest => sound_attachment hcall hv htest) h).imp
    (fun _ _ hu => hu.1) fun _ _ hu => hu

/-! ## §5. Names and types. -/

/-- Where it does not matter what comes before and after. -/
abbrev Anywhere : List TokenKind → TokenKind → Prop := fun _ _ => True

/-- A token is gone past, whatever it is. -/
theorem sound_skip {P : List TokenKind → TokenKind → Prop} (h : Clear text low P w)
    (hw : w.cursor.current.isFinish = false) :
    Ensures advance w (Sound text low) (fun _ v => Clear text low Anywhere v) (Fails text low) :=
  h.advance hw fun _ _ _ => trivial

/-- The word `out` and what it discards are gone past, or nothing has been done. -/
theorem sound_discardedOut (h : Fresh text low w) :
    Ensures discardedOut w (Sound text low)
      (fun found v => if found then Clear text low Anywhere v else v = w) (Fails text low) := by
  refine .ifLook h.toSound (fun hout => ?_) fun _ => .pure h.toSound rfl
  have hw : w.cursor.current.isFinish = false := by
    cases hc : w.cursor.current.kind <;>
      simp_all [Cursor.isOneOf, Token.isFinish, outWords]
  refine (sound_skip h hw).bind fun _ v hv => ?_
  refine Ensures.bind (Q := fun _ u => u = v ∧ v.cursor.current.text = "_")
    (.demand hv.toSound (fun ht => ⟨rfl, by simpa using ht⟩) fun _ => hv.toSound.fails rfl) ?_
  rintro _ u ⟨rfl, htext⟩
  have hu : u.cursor.current.isFinish = false := by
    obtain ⟨past, hreached, -⟩ := hv.reached
    cases hf : u.cursor.current.isFinish with
    | false => rfl
    | true => simp [text_of_finish hreached hf] at htext
  exact (sound_skip hv hu).bind fun _ t ht => .pure ht.toSound ht

/-- A name between dots is gone past in a loop. -/
theorem sound_dottedName {P : List TokenKind → TokenKind → Prop} (h : Clear text low P w) :
    Ensures dottedName w (Sound text low) (fun _ v => Clear text low Anywhere v) (Fails text low) := by
  refine Ensures.repeatStep (J := fun _ v => Clear text low Anywhere v) (fun _ _ hv => hv.toSound)
    (fun _ _ hv => hv.toSound.fails rfl) ?_ (h.imp fun _ _ => trivial)
  intro name v hv
  refine Ensures.bind (Q := fun t u => t = v.cursor.current ∧ u = v) (.look hv.toSound ⟨rfl, rfl⟩) ?_
  rintro _ u ⟨rfl, rfl⟩
  split
  · rename_i hkind
    have hu : u.cursor.current.isFinish = false := by
      cases hc : u.cursor.current.kind <;> simp_all [Token.isFinish]
    exact (sound_skip hv hu).bind fun _ t ht => .pure ht.toSound ht
  · exact .pure hv.toSound ⟨hv.toSound, hv⟩

/-- The name after `as` is gone past. -/
theorem sound_aliasName (dotted : Bool) {P : List TokenKind → TokenKind → Prop}
    (h : Clear text low P w) :
    Ensures (aliasName dotted) w (Sound text low) (fun _ v => Clear text low Anywhere v) (Fails text low) := by
  refine Ensures.bind (Q := fun _ v => v = w ∧ w.cursor.current.kind = .identifier)
    (.demand h.toSound (fun hk => ⟨rfl, by simpa [Cursor.isKind] using hk⟩)
      fun _ => h.toSound.fails rfl) ?_
  rintro _ v ⟨rfl, hkind⟩
  cases dotted with
  | true => exact (sound_dottedName h).map (fun _ _ hu => hu.toSound) fun _ _ hu => hu
  | false =>
    refine Ensures.bind (Q := fun _ u => u = v) (.look h.toSound rfl) ?_
    rintro _ _ rfl
    exact (sound_skip h (by simp [Token.isFinish, hkind])).bind fun _ u hu => .pure hu.toSound hu

/-- The brackets that may follow the name of a created type. -/
def opensMembers (kind : TokenKind) : Prop :=
  kind = .openParen ∨ kind = .openBracket ∨ kind = .openCurly

/-- The name of a created type is gone past up to a bracket. -/
theorem sound_createdType {P : List TokenKind → TokenKind → Prop} (h : Clear text low P w)
    (hw : w.cursor.current.kind = .identifier) :
    Ensures createdType w (Sound text low) (fun _ v => Clear text low (fun _ => opensMembers) v)
      (Fails text low) := by
  refine (sound_skip h (by simp [Token.isFinish, hw])).bind fun _ v hv => ?_
  refine (Ensures.repeatWhile (J := fun v => Clear text low Anywhere v) (fun _ hv => hv.toSound)
    (fun _ hv => hv.toSound.fails rfl) ?_ hv).bind fun _ u hu => ?_
  · intro u hu htest
    have hu' : u.cursor.current.isFinish = false := isFinish_of_joins (isJoint_eq _ ▸ htest)
    exact (sound_skip hu hu').bind fun _ t ht =>
      sound_expect ht.toSound (by decide) rfl fun _ _ => trivial
  · refine .demand hu.1.toSound (fun hany => hu.1.imp fun _ _ => ?_) fun _ => hu.1.toSound.fails rfl
    simpa [Cursor.isAny, opensMembers] using hany

/-- After the mark of an array and without one, a bracket stands before the members. -/
theorem sound_arrayMark (h : Clear text low (fun _ => opensMembers) w) :
    Ensures arrayMark w (Sound text low)
      (fun _ v => Clear text low (fun _ kind => kind = .openParen ∨ kind = .openCurly) v)
      (Fails text low) := by
  refine .ifLook h.toSound (fun hbracket => ?_) fun hbracket => .pure h.toSound ?_
  · have hw : w.cursor.current.isFinish = false := by
      cases hc : w.cursor.current.kind <;> simp_all [Cursor.isKind, Token.isFinish]
    refine (sound_skip h hw).bind fun _ v hv => ?_
    refine (sound_expect hv.toSound (by decide) rfl (P := Anywhere) fun _ _ => trivial).bind fun _ u hu => ?_
    refine Ensures.bind (Q := fun _ t => Clear text low
        (fun _ kind => kind = .openParen ∨ kind = .openCurly) t)
      (.demand hu.toSound (fun hk => hu.imp fun _ _ => ?_) fun _ => hu.toSound.fails rfl)
      fun _ t ht => .pure ht.toSound ht
    exact .inr (by simpa [Cursor.isKind] using hk)
  · refine h.imp fun _ hopens => ?_
    rcases hopens with hk | hk | hk
    · exact .inl hk
    · simp [Cursor.isKind, hk] at hbracket
    · exact .inr hk

/-- A member of what is made is an operand, possibly with a name. -/
theorem sound_createdMember (hcall : Orderly text low call) (isArray : Bool) (h : Fresh text low w) :
    Ensures (createdMember parsing call isArray) w (Sound text low)
      (fun _ v => Clear text low Anywhere v) (Fails text low) := by
  refine (hcall .conditional w h).bind fun _ v hv => ?_
  refine .onlyIf hv.toSound (fun has => ?_) fun _ => hv.imp fun _ _ => trivial
  have hw : v.cursor.current.isFinish = false := by
    cases hc : v.cursor.current.kind <;> simp_all [Cursor.isWord, Token.isFinish]
  refine (sound_skip hv hw).bind fun _ u hu => ?_
  exact (sound_aliasName parsing.dottedAliases hu).bind fun _ t ht => .pure ht.toSound ht

/-- Every member but the first one opens after a comma. -/
theorem sound_createdMembers (hcall : Orderly text low call) (isArray : Bool) (h : Fresh text low w) :
    Ensures (createdMembers parsing call isArray) w (Sound text low)
      (fun _ v => Clear text low Anywhere v) (Fails text low) := by
  refine Ensures.repeatStep (J := fun _ v => Fresh text low v) (fun _ _ hv => hv.toSound)
    (fun _ _ hv => hv.toSound.fails rfl) ?_ h
  intro _ v hv
  refine .ifLook hv.toSound
    (fun _ => .pure hv.toSound ⟨hv.toSound, hv.imp fun _ _ => trivial⟩) fun _ => ?_
  refine (sound_createdMember hcall isArray hv).bind fun _ u hu => ?_
  refine .ifLook hu.toSound (fun hcomma => ?_) fun _ => .pure hu.toSound ⟨hu.toSound, hu⟩
  have hkind : u.cursor.current.kind = .comma := by simpa [Cursor.isKind] using hcomma
  refine (hu.advance (by simp [Token.isFinish, hkind]) fun past _ _ => ?_).bind
    fun _ t ht => .pure ht.toSound ht
  rw [hkind]
  exact openable_cons_of_not rfl (by decide)

/-! ## §6. Bodies. -/

/-- A number with the minus before it: the operand opens at the minus. -/
theorem entry_operand_of_negated {operator : Token} (h : Fresh text low v)
    (hnumber : v.cursor.current.kind.isNumber = true)
    (hopened : Opened text operator.start) (hlow : low ≤ operator.start) (hpast : ∀ start ∈ v.held, start < operator.start)
    (hstart : operator.start ≤ v.cursor.current.start) :
    Entry text low operand
      { v with cursor := { v.cursor with current := v.cursor.current.negated operator } } := by
  obtain ⟨past, hreached, hopen⟩ := h.reached
  have hstands : Stands text past
      { v.cursor with current := v.cursor.current.negated operator } :=
    (Stands.of_reaches hreached).replace rfl hstart
  have hliteral : v.cursor.current.kind ≠ .stringLiteral := by
    intro hkind
    rw [hkind] at hnumber
    cases hnumber
  exact ⟨⟨⟨past, hstands⟩, fun hkind => absurd hkind hliteral, h.opened, h.ordered,
    fun s hs => Nat.le_of_lt (hpast s hs), h.depth, hlow, h.low_le_opened⟩, hpast, hopened, past, hstands,
    hopen.name⟩

/-- What follows the operator of a unary expression; a minus becomes part of a number. -/
theorem sound_operated (hcall : Orderly text low call) (h : Fresh text low w) (hv : Fresh text low v)
    (hheld : v.held = w.held) (hstart : w.cursor.current.start < v.cursor.current.start) :
    Ensures (operated call w.cursor.current) v (Sound text low) (fun _ u => Clear text low Leaves u)
      (Fails text low) := by
  refine Ensures.bind (Q := fun t u => t = v.cursor.current ∧ u = v) (.look hv.toSound ⟨rfl, rfl⟩) ?_
  rintro _ u ⟨rfl, rfl⟩
  split
  · rename_i hnegated
    have hnumber : u.cursor.current.kind.isNumber = true := by
      simp only [Bool.and_eq_true] at hnegated
      exact hnegated.2
    obtain ⟨past, hreached, hopen⟩ := h.reached
    have hentry := entry_operand_of_negated hv hnumber ⟨past, _, hreached, rfl, hopen⟩ h.low_le
      (hheld ▸ h.past_open) (Nat.le_of_lt hstart)
    exact Ensures.bind (Q := fun _ u => Entry text low operand u)
      (.edit hv.toSound hentry.1 hentry) fun _ u hu => hcall operand u hu
  · exact hcall .unary _ hv

/-- One level deeper a rule keeps the order just the same. -/
theorem sound_nested {rule : Locator Unit} (h : Fresh text low w)
    (hrule : Fresh text low w.deeper →
      Ensures rule w.deeper (Sound text low) (fun _ v => Clear text low Leaves v) (Fails text low)) :
    Ensures (nested rule) w (Sound text low) (fun _ v => Clear text low Leaves v) (Fails text low) := by
  refine .nested h.toSound (fun _ => h.toSound.fails rfl) fun hdepth => ?_
  refine (hrule (h.at_depth hdepth)).imp ?_ fun _ _ hv => ⟨hv.shallower.1, hv.shallower⟩
  intro _ v hv
  have hv := hv.at_depth (Nat.le_trans (Nat.sub_le _ 1) hv.depth)
  exact ⟨hv.toSound, hv⟩

/-- A prefix operator closes its operand and opens it again, so that the stack is in order on both sides. -/
theorem sound_unary (hcall : Orderly text low call) (h : Fresh text low w) :
    Ensures (body parsing call unary) w (Sound text low) (fun _ v => Clear text low Leaves v)
      (Fails text low) := by
  refine sound_nested h fun hw => ?_
  refine .ifLook hw.toSound (fun hoperator => ?_) fun _ => hcall .operand _ hw.entry_operand
  have hfacts : w.cursor.current.isFinish = false ∧ joins w.cursor.current.kind = false := by
    cases hc : w.cursor.current.kind <;>
      simp_all [Walk.deeper, isSign, Cursor.isAny, Cursor.isWord, Token.isFinish, joins]
  refine Ensures.bind (Q := fun t v => t = w.deeper.cursor.current ∧ v = w.deeper)
    (.look hw.toSound ⟨rfl, rfl⟩) ?_
  rintro _ _ ⟨rfl, rfl⟩
  obtain ⟨past, hreached, hopen⟩ := hw.reached
  refine (sound_onward (P := fun past _ => Openable past) hw.toSound (.of_reaches hreached)
    hfacts.1 fun _ => hopen.cons hfacts.2).bind fun _ v hv => ?_
  exact sound_operated hcall hw hv.1 hv.2.1 hv.2.2

/-- With the operand open, the rule for what is first in it may be entered. -/
theorem entry_primary_of_opened (h : Entry text low operand w) :
    Entry text low primary { w with held := w.cursor.current.start :: w.held } := by
  obtain ⟨hsound, hpast, hopened, hname⟩ := h
  refine ⟨⟨hsound.placed, hsound.literal, ?_, List.pairwise_cons.2 ⟨hpast, hsound.ordered⟩, ?_,
    hsound.depth, hsound.low_le, ?_⟩, hname⟩
  · exact List.forall_mem_cons.2 ⟨hopened, hsound.opened⟩
  · exact List.forall_mem_cons.2 ⟨Nat.le_refl _, hsound.below⟩
  · exact List.forall_mem_cons.2 ⟨hsound.low_le, hsound.low_le_opened⟩

/-- The offset of an operand goes on top of the stack and, unless the text is over, off again. -/
theorem sound_operand (hcall : Orderly text low call) (h : Entry text low operand w) :
    Ensures (body parsing call operand) w (Sound text low) (fun _ v => Clear text low Leaves v)
      (Fails text low) := by
  have hentry := entry_primary_of_opened h
  refine Ensures.bind (Q := fun _ v => Entry text low primary v) (.hold h.1 hentry.1 hentry)
    fun _ v hv => ?_
  refine (hcall primary v hv).bind fun _ u hu => ?_
  refine (sound_attached hcall hu).bind fun _ t ht => ?_
  -- At the end of the text the operand stays open; otherwise it is taken off the stack.
  have hclosed : Clear text low Leaves
      { t with held := if t.cursor.current.isFinish then t.held else t.held.tail } := by
    have hsublist : (if t.cursor.current.isFinish then t.held else t.held.tail).Sublist t.held := by
      split
      · exact List.Sublist.refl _
      · exact List.tail_sublist _
    have hmem : ∀ {start}, start ∈ (if t.cursor.current.isFinish then t.held else t.held.tail) →
        start ∈ t.held := fun hs => hsublist.subset hs
    exact ⟨⟨ht.placed, ht.literal, fun s hs => ht.opened s (hmem hs), ht.ordered.sublist hsublist,
      fun s hs => ht.below s (hmem hs), ht.depth, ht.low_le, fun s hs => ht.low_le_opened s (hmem hs)⟩,
      fun s hs => ht.past_open s (hmem hs), ht.reached⟩
  exact .hold ht.toSound hclosed.toSound hclosed

/-- A literal, a name, a creation or an expression in parentheses. -/
theorem sound_primary (hcall : Orderly text low call) (h : Entry text low primary w) :
    Ensures (body parsing call primary) w (Sound text low) (fun _ v => Clear text low Leaves v)
      (Fails text low) := by
  obtain ⟨hsound, past, hstands, hname⟩ := h
  refine Ensures.bind (Q := fun k v => k = w.cursor.current.kind ∧ v = w)
    (.look hsound ⟨rfl, rfl⟩) ?_
  rintro k v ⟨hk, rfl⟩
  -- Behind a number an operand may be left.
  have hnumber : (k = .integerLiteral ∨ k = .realLiteral) →
      Ensures advance v (Sound text low) (fun _ v => Clear text low Leaves v) (Fails text low) := by
    intro hkind
    refine sound_advance hsound hstands ?_ fun next => ?_
    · rcases hkind with rfl | rfl <;> simp [Token.isFinish, ← hk]
    · rw [← hk]
      rcases hkind with rfl | rfl <;> exact leaves_of_closed rfl (by decide)
  split
  · exact .ifLook hsound (fun _ => hcall creation _ ⟨hsound, hk.symm⟩)
      fun _ => hcall member _ ⟨hsound, past, hstands, hname⟩
  · exact hcall .text _ ⟨hsound, hk.symm⟩
  · exact hnumber (.inl rfl)
  · exact hnumber (.inr rfl)
  · exact hcall parenthesized _ ⟨hsound, past, hstands, hname⟩
  · exact .fail hsound (hsound.fails rfl)

/-- A name is left where no chain is open, as none was open before it and the rule goes on with
every dot and plus. -/
theorem sound_member (hcall : Orderly text low call) (h : Entry text low member w) :
    Ensures (body parsing call member) w (Sound text low) (fun _ v => Clear text low Leaves v)
      (Fails text low) := by
  obtain ⟨hsound, past, hstands, hname⟩ := h
  refine Ensures.bind (Q := fun _ v => v = w ∧ w.cursor.current.kind = .identifier)
    (.demand hsound (fun hk => ⟨rfl, by simpa [Cursor.isKind] using hk⟩) fun _ => hsound.fails rfl) ?_
  rintro _ v ⟨rfl, hkind⟩
  -- A name without its mark is where it was.
  have hreword : Sound text low
      { v with cursor := v.cursor.reword (plainName v.cursor.current.text) } :=
    ⟨⟨past, hstands.reword _⟩, fun hliteral => absurd (hkind.symm.trans hliteral) (by decide), hsound.opened,
      hsound.ordered, hsound.below, hsound.depth, hsound.low_le, hsound.low_le_opened⟩
  refine Ensures.bind (Q := fun _ u => Sound text low u ∧ Stands text past u.cursor ∧
      u.cursor.current.kind = .identifier)
    (.edit hsound hreword ⟨hreword, hstands.reword _, hkind⟩) fun _ u hu => ?_
  obtain ⟨hu, hstands, hkind⟩ := hu
  refine (sound_advance (P := fun before _ => endsInChain before = false) hu hstands
    (by simp [Token.isFinish, hkind]) fun _ => by rw [hkind]; exact hname).bind fun _ t ht => ?_
  -- Behind a name stands an arrow with an expression, or a joint, or arguments.
  refine .ifLook ht.toSound (fun harrow => ?_) fun _ => ?_
  · have hkind : t.cursor.current.kind = .arrow := by simpa [Cursor.isKind] using harrow
    refine (ht.advance (R := fun before _ => Openable before) (by simp [Token.isFinish, hkind])
      fun _ _ _ => ?_).bind fun _ s hs => hcall conditional s hs
    rw [hkind]
    exact openable_cons_of_not rfl (by decide)
  · refine Ensures.bind (Q := fun _ s => Clear text low Leaves s)
      (.onlyIf ht.toSound (fun hjoin => ?_) fun hjoin => ?_) fun _ s hs => ?_
    · exact hcall nameChain t (ht.imp fun _ _ => isJoint_eq _ ▸ hjoin)
    · exact ht.imp fun _ hbefore => leaves_of_not_joins (isJoint_eq _ ▸ hjoin) fun _ => hbefore
    · exact .onlyIf hs.toSound (fun _ => hcall argumentList s hs.toSound) fun _ => hs

/-- A chain of names is left right after one of its names, if a name follows. -/
theorem sound_nameChain (hcall : Orderly text low call) (h : Entry text low nameChain w) :
    Ensures (body parsing call nameChain) w (Sound text low) (fun _ v => Clear text low Leaves v)
      (Fails text low) := by
  refine (Ensures.repeatWhile
    (J := fun v => Clear text low
      (fun past next => next = .identifier → past.head? = some .identifier) v)
    (fun _ hv => hv.toSound) (fun _ hv => hv.toSound.fails rfl) ?_ ?_).bind fun _ v hv => ?_
  -- Each round goes past a joint, and past a name if there is one.
  · intro v hv htest
    have hfinish : v.cursor.current.isFinish = false := isFinish_of_joins (isJoint_eq _ ▸ htest)
    refine (sound_skip hv hfinish).bind fun _ u hu => ?_
    refine .onlyIf hu.toSound (fun hname => ?_) fun hname => hu.imp fun _ _ hkind => ?_
    · have hkind : u.cursor.current.kind = .identifier := by simpa [Cursor.isKind] using hname
      refine hu.advance (by simp [Token.isFinish, hkind]) fun _ _ _ _ => ?_
      rw [hkind]
      rfl
    · simp [Cursor.isKind, hkind] at hname
  · refine h.imp fun _ hjoins hkind => ?_
    rw [hkind] at hjoins
    cases hjoins
  -- The loop is over at what is no joint; a name there has a name before it.
  · obtain ⟨hv, htest⟩ := hv
    obtain ⟨past, hreached, hpast⟩ := hv.reached
    have hjoins : joins v.cursor.current.kind = false := isJoint_eq _ ▸ htest
    have hname : v.cursor.current.kind = .identifier →
        endsInChain (.identifier :: past) = false := by
      intro hkind
      obtain ⟨before, rfl⟩ := List.head?_eq_some_iff.1 (hpast hkind)
      rfl
    refine .onlyIf hv.toSound (fun hkind => ?_) fun hkind => hv.imp fun before _ => ?_
    · exact hcall member v ⟨hv.toSound, past, .of_reaches hreached,
        hname (by simpa [Cursor.isKind] using hkind)⟩
    · refine leaves_of_not_joins hjoins fun hname => ?_
      simp [Cursor.isKind, hname] at hkind

/-- Arguments open after a parenthesis, a bracket or a comma. -/
theorem sound_arguments (hcall : Orderly text low call) (h : Fresh text low w) :
    Ensures (body parsing call arguments) w (Sound text low) (fun _ v => Clear text low Anywhere v)
      (Fails text low) := by
  refine (hcall argument w h).bind fun _ v hv => ?_
  refine sound_operatorLoop (fun w hw => hcall argument w hw) (fun c past hcomma _ => ?_) none hv
  have hkind : c.current.kind = .comma := by simpa [Cursor.isKind] using hcomma
  exact ⟨by simp [Token.isFinish, hkind], by rw [hkind]; exact openable_cons_of_not rfl (by decide)⟩

/-- Behind `new` stand the name of a type, a bracket, and arguments or members. -/
theorem sound_creation (hcall : Orderly text low call) (h : Entry text low creation w) :
    Ensures (body parsing call creation) w (Sound text low) (fun _ v => Clear text low Leaves v)
      (Fails text low) := by
  obtain ⟨hsound, hkind⟩ := h
  obtain ⟨past, hstands⟩ := hsound.placed
  refine (sound_advance (P := Anywhere) hsound hstands (by simp [Token.isFinish, hkind])
    fun _ => trivial).bind fun _ v hv => ?_
  refine Ensures.bind (Q := fun _ u => Clear text low (fun _ kind => opensMembers kind ∨
      kind = .identifier) u) (.demand hv.toSound (fun hany => hv.imp fun _ _ => ?_)
      fun _ => hv.toSound.fails rfl) fun _ u hu => ?_
  · simp only [Cursor.isAny, List.contains_cons, List.contains_nil, Bool.or_eq_true, beq_iff_eq,
      Bool.or_false] at hany
    rcases hany with hk | hk | hk | hk
    · exact .inl (.inl hk)
    · exact .inl (.inr (.inr hk))
    · exact .inl (.inr (.inl hk))
    · exact .inr hk
  -- The name of a type is gone past up to the bracket behind it; without a name the bracket is here.
  refine Ensures.bind (Q := fun _ t => Clear text low (fun _ => opensMembers) t)
    (.onlyIf hu.toSound (fun hk => ?_) fun hk => hu.imp fun _ hopens => hopens.resolve_right ?_)
    fun _ t ht => ?_
  · exact sound_createdType hu (by simpa [Cursor.isKind] using hk)
  · simpa [Cursor.isKind] using hk
  -- The mark of an array leaves the walk at a curly bracket, and all of them open members.
  refine (sound_arrayMark ht).bind fun isArray s hs => ?_
  have hfinish : s.cursor.current.isFinish = false := by
    obtain ⟨-, -, hk | hk⟩ := hs.reached <;> simp [Token.isFinish, hk]
  refine (hs.advance (R := fun past _ => Openable past) hfinish fun _ hopens _ => ?_).bind
    fun _ r hr => ?_
  · rcases hopens with hk | hk <;> rw [hk] <;> exact openable_cons_of_not rfl (by decide)
  -- Behind the members an operand may be left, once the bracket is closed.
  refine (sound_createdMembers hcall isArray hr).bind fun _ q hq => ?_
  refine Ensures.bind (Q := fun _ p => p = q ∧ (q.cursor.current.kind = .closeParen ∨
      q.cursor.current.kind = .closeCurly))
    (.demand hq.toSound (fun hany => ⟨rfl, by simpa [Cursor.isAny] using hany⟩)
      fun _ => hq.toSound.fails rfl) ?_
  rintro _ p ⟨rfl, hkind⟩
  refine hq.advance ?_ fun _ _ _ => ?_
  · rcases hkind with hk | hk <;> simp [Token.isFinish, hk]
  · rcases hkind with hk | hk <;> rw [hk] <;> exact leaves_of_closed rfl (by decide)

/-- Reading ahead moves nothing. -/
theorem sound_lookAhead (h : Sound text low w) :
    Ensures lookAhead w (Sound text low) (fun _ v => v = w) (Fails text low) := by
  refine Ensures.bind (Q := fun _ v => v = w) (.look h rfl) ?_
  rintro c _ rfl
  refine Ensures.bind (Q := fun _ v => v = _)
    (.ofExcept h (fun _ _ => rfl) fun _ hf => h.fails (Cursor.isPlain_of_next hf)) ?_
  rintro ahead _ rfl
  split
  · refine Ensures.bind (Q := fun _ v => v = _)
      (.ofExcept h (fun _ _ => rfl) fun _ hf => h.fails (Cursor.isPlain_of_next hf)) ?_
    rintro _ _ rfl
    exact .pure h rfl
  · exact .pure h rfl

/-- To read the value of a literal changes nothing. -/
theorem sound_literalValue (h : Sound text low w) (literal : String)
    (hfails : ∀ fault, Literal.value parsing.dialect w.cursor.current.start literal = .error fault →
      Fails text low (.fault fault) w) :
    Ensures (literalValue parsing literal) w (Sound text low) (fun _ v => v = w) (Fails text low) := by
  refine Ensures.bind (Q := fun position v => position = w.cursor.current.start ∧ v = w)
    (.look h ⟨rfl, rfl⟩) ?_
  rintro _ _ ⟨rfl, rfl⟩
  exact .ofExcept h (fun _ _ => rfl) hfails

/-- Past one or more literals of a row, which goes on from the literal at `c`. -/
structure InRow (text : List Char) (low : Nat) (c : Cursor) (joined : String) (w : Walk (List Nat)) :
    Prop where
  clear : Clear text low (fun past _ => past.head? = some .stringLiteral) w
  row : ∃ last, Row c joined last w.cursor

/-- Where a literal was read an operand may be left. -/
theorem InRow.leaves {c : Cursor} {joined : String} (h : InRow text low c joined w) :
    Clear text low Leaves w :=
  h.clear.imp fun past hpast => by
    obtain ⟨before, rfl⟩ := List.head?_eq_some_iff.1 hpast
    exact leaves_of_closed rfl (by decide)

/-- Past one more literal. -/
theorem sound_advance_literal (h : Sound text low w) (hkind : w.cursor.current.kind = .stringLiteral)
    {c : Cursor} {joined : String}
    (hrow : ∀ d, w.cursor.next = .ok d → ∃ last, Row c joined last d) :
    Ensures advance w (Sound text low) (fun _ v => InRow text low c joined v) (Fails text low) := by
  obtain ⟨past, hreached⟩ := h.literal hkind
  have hw : w.cursor.current.isFinish = false := by simp [Token.isFinish, hkind]
  have honward := sound_onward (P := fun past _ => past.head? = some .stringLiteral) h
    (.of_reaches hreached) hw fun _ => by rw [hkind]; rfl
  refine .advance h (fun d hnext => ?_) fun _ hfault => h.fails (Cursor.isPlain_of_next hfault)
  obtain ⟨hclear, -, -⟩ := honward.ok (run_advance hnext)
  exact ⟨hclear.toSound, hclear, hrow d hnext⟩

/-- Literals in a row are put together up to the first token that is none. -/
theorem sound_adjacentLiterals (h : Sound text low w) (hkind : w.cursor.current.kind = .stringLiteral) :
    Ensures (adjacentLiterals w.cursor.current.text) w (Sound text low)
      (fun joined v => InRow text low w.cursor joined v ∧ v.cursor.current.kind ≠ .stringLiteral)
      (Fails text low) := by
  refine (sound_advance_literal h hkind fun d hnext => ⟨_, .single hkind hnext⟩).bind fun _ v hv => ?_
  refine Ensures.repeatStep (J := fun joined u => InRow text low w.cursor joined u)
    (fun _ _ hu => hu.clear.toSound) (fun _ _ hu => hu.clear.toSound.fails rfl) ?_ hv
  intro joined u hu
  refine Ensures.bind (Q := fun t s => t = u.cursor.current ∧ s = u) (.look hu.clear.toSound ⟨rfl, rfl⟩) ?_
  rintro _ s ⟨rfl, rfl⟩
  split
  · rename_i hk
    obtain ⟨last, hrow⟩ := hu.row
    exact (sound_advance_literal hu.clear.toSound hk fun d hnext => ⟨_, hrow.more hk hnext⟩).bind
      fun _ t ht => .pure ht.clear.toSound ht
  · rename_i hk
    exact .pure hu.clear.toSound ⟨hu.clear.toSound, hu, hk⟩

/-- A row that is not closed is reported where it is over. -/
theorem sound_joinedValue {c : Cursor} {past : List TokenKind} {joined : String}
    (hc : Reaches text past c) (hquote : c.current.text.toList.head? ≠ some '\'')
    (h : InRow text low c joined w) (hend : w.cursor.current.kind ≠ .stringLiteral) :
    Ensures (literalValue parsing joined) w (Sound text low) (fun _ v => v = w) (Fails text low) := by
  obtain ⟨last, hrow⟩ := h.row
  refine sound_literalValue h.clear.toSound joined fun fault hvalue => ?_
  rcases Literal.plain_or_mixedRow_of_value hrow hc hquote hend hvalue with hplain | ⟨rfl, hmixed⟩
  · exact h.clear.toSound.fails hplain
  · exact ⟨h.clear.toSound, c, w.cursor, hmixed, rfl⟩

/-- Literals in a row, which are not closed only if their quotes are mixed. -/
theorem sound_text (h : Entry text low .text w) :
    Ensures (body parsing call .text) w (Sound text low) (fun _ v => Clear text low Leaves v)
      (Fails text low) := by
  obtain ⟨hsound, hkind⟩ := h
  obtain ⟨past, hreached⟩ := hsound.literal hkind
  -- The value of the first literal is read where it stands, which says how it may fail.
  have hfirst : Ensures (literalValue parsing w.cursor.current.text) w (Sound text low)
      (fun _ v => v = w) (Fails text low) :=
    sound_literalValue hsound _ fun fault hvalue =>
      hsound.fails (Literal.isPlain_of_value hreached hkind hvalue)
  refine (sound_lookAhead hsound).bind ?_
  rintro _ u rfl
  refine Ensures.bind (Q := fun t v => t = u.cursor.current ∧ v = u) (.look hsound ⟨rfl, rfl⟩) ?_
  rintro _ v ⟨rfl, rfl⟩
  refine hfirst.bind ?_
  rintro value t rfl
  split
  · split
    · exact .fail hsound (hsound.fails rfl)
    · exact (sound_advance_literal hsound hkind fun d hnext => ⟨_, .single hkind hnext⟩).imp
        (fun _ _ hv => hv.leaves) fun _ _ hv => hv
  -- In double quotes the literals of a row are joined, and may fail as a whole.
  · rename_i hquote
    refine (sound_adjacentLiterals hsound hkind).bind fun joined u hu => ?_
    refine (sound_joinedValue hreached hquote hu.1 hu.2).bind ?_
    rintro _ _ rfl
    exact .pure hu.1.leaves.toSound hu.1.leaves

/-- The two branches after a condition. -/
theorem sound_choice (hcall : Orderly text low call) (h : Clear text low Leaves w) :
    Ensures (choice call) w (Sound text low) (fun _ v => Clear text low Leaves v)
      (Fails text low) := by
  refine .onlyIf h.toSound (fun hquestion => ?_) fun _ => h
  have hkind : w.cursor.current.kind = .question := by simpa [Cursor.isKind] using hquestion
  refine (h.advance (R := fun past _ => Openable past) (by simp [Token.isFinish, hkind])
    fun _ hpast _ => openable_of_leaves hpast).bind fun _ u hu => ?_
  refine (hcall conditional u hu).bind fun _ t ht => ?_
  exact (sound_expect (P := fun past _ => Openable past) ht.toSound (by decide) rfl
    fun _ _ => openable_cons_of_not rfl (by decide)).bind fun _ s hs => hcall conditional s hs

/-- The second operand of `np`, if there is one. -/
theorem sound_fallback (hcall : Orderly text low call) (h : Clear text low Leaves w) :
    Ensures (fallback call) w (Sound text low) (fun _ v => Clear text low Leaves v)
      (Fails text low) := by
  refine .onlyIf h.toSound (fun hcoalesce => ?_) fun _ => h
  have hkind : w.cursor.current.kind = .coalesce := by simpa [Cursor.isKind] using hcoalesce
  exact (h.advance (R := fun past _ => Openable past) (by simp [Token.isFinish, hkind])
    fun _ hpast _ => openable_of_leaves hpast).bind fun _ u hu => hcall conditional u hu

/-- After an arrow nothing but a parenthesis can follow, and no chain of names is open there. -/
theorem sound_arrow (hcall : Orderly text low call) (h : Clear text low Leaves w) :
    Ensures (arrow call) w (Sound text low) (fun _ v => Clear text low Leaves v)
      (Fails text low) := by
  refine .onlyIf h.toSound (fun harrow => ?_) fun _ => h
  have hkind : w.cursor.current.kind = .arrow := by simpa [Cursor.isKind] using harrow
  refine (h.advance (R := fun past _ => Openable past) (by simp [Token.isFinish, hkind])
    fun _ hpast _ => openable_of_leaves hpast).bind fun _ u hu => ?_
  refine Ensures.bind (Q := fun _ t => Clear text low Anywhere t)
    (.onlyIf hu.toSound (fun _ => ?_) fun _ => hu.imp fun _ _ => trivial) fun _ t ht => ?_
  · exact (hcall conditional u hu).imp (fun _ _ ht => ht.imp fun _ _ => trivial) fun _ _ ht => ht
  · refine .demand ht.toSound (fun hparen => ht.imp fun _ _ => ?_) fun _ => ht.toSound.fails rfl
    have hkind : t.cursor.current.kind = .openParen := by simpa [Cursor.isKind] using hparen
    rw [hkind]
    exact leaves_of_not_joins rfl (by simp)

/-- An argument is an expression, unless it is discarded. -/
theorem sound_argument (hcall : Orderly text low call) (h : Fresh text low w) :
    Ensures (body parsing call argument) w (Sound text low) (fun _ v => Clear text low Anywhere v)
      (Fails text low) := by
  refine (sound_discardedOut h).bind fun found v hv => ?_
  cases found with
  | true => exact .pure hv.toSound hv
  | false =>
    cases hv
    exact (hcall conditional _ h).imp (fun _ _ hu => hu.imp fun _ _ => trivial) fun _ _ hu => hu

/-- Something between two brackets. -/
theorem sound_bracketed (h : Sound text low w) {opening closing : TokenKind} {cause cause' : Cause}
    {inner : Locator Unit} (hcause : cause.isPlain = true ∧ cause'.isPlain = true) (hopening : opening ≠ .finish ∧ joins opening = false ∧ opening ≠ .identifier)
    (hclosing : closing ≠ .finish ∧ joins closing = false ∧ closing ≠ .identifier)
    (hinner : ∀ v, Fresh text low v →
      Ensures inner v (Sound text low) (fun _ u => Sound text low u) (Fails text low)) :
    Ensures (do
      expect opening cause
      inner
      expect closing cause') w (Sound text low) (fun _ v => Clear text low Leaves v) (Fails text low) := by
  refine (sound_expect (P := fun past _ => Openable past) h hopening.1 hcause.1
    fun _ _ => openable_cons_of_not hopening.2.1 hopening.2.2).bind fun _ v hv => ?_
  refine (hinner v hv).bind fun _ u hu => ?_
  exact sound_expect hu hclosing.1 hcause.2 fun _ _ => leaves_of_closed hclosing.2.1 hclosing.2.2

/-- Operands with operators between them open where any operand may. -/
theorem sound_operand_of_operators (hcall : Orderly text low call) {rule sub : Rule}
    {test : Cursor → Bool} (hoperators : rule.operators? = some (sub, test)) (h : Fresh text low w) :
    Ensures (call sub) w (Sound text low) (fun _ v => Clear text low Leaves v) (Fails text low) := by
  cases rule <;> cases hoperators <;> exact hcall _ w h

/-- Operators of one level, each with the operand behind it. -/
theorem sound_operators (hcall : Orderly text low call) {rule sub : Rule} {test : Cursor → Bool}
    (hoperators : rule.operators? = some (sub, test)) (budget : Option Nat)
    (h : Clear text low Leaves w) :
    Ensures (goOn test (do advance; call sub) budget) w (Sound text low)
      (fun _ v => Clear text low Leaves v) (Fails text low) := by
  exact sound_operatorLoop (fun w => sound_operand_of_operators hcall hoperators)
    (fun c past htest hpast => ⟨beq_eq_false_iff_ne.2 (operators?_kind_ne hoperators htest (by decide)),
      openable_of_leaves hpast⟩) budget h

/-- An operand, and the operators of one level after it. -/
theorem sound_chain (hcall : Orderly text low call) {rule sub : Rule} {test : Cursor → Bool}
    (hoperators : rule.operators? = some (sub, test)) (h : Fresh text low w) :
    Ensures (body parsing call rule) w (Sound text low) (fun _ v => Clear text low Leaves v)
      (Fails text low) := by
  rw [body_operators hoperators]
  exact (sound_operand_of_operators hcall hoperators h).bind
    fun _ _ hv => sound_operators hcall hoperators none hv

/-- **The bodies of all rules keep the order if their calls do.** -/
theorem sound_body (hcall : Orderly text low call) (r : Rule) (w : Walk (List Nat))
    (h : Entry text low r w) :
    Ensures (body parsing call r) w (Sound text low) (fun _ v => Exit text low r v) (Fails text low) := by
  cases r with
  | conditional =>
    exact sound_nested h fun hw => (hcall coalescing _ hw).bind fun _ _ hv => sound_choice hcall hv
  | coalescing => exact (hcall projection w h).bind fun _ _ hv => sound_fallback hcall hv
  | projection => exact (hcall disjunction w h).bind fun _ _ hv => sound_arrow hcall hv
  | disjunction | conjunction | bitwise | comparison | shift | sum | product =>
    exact sound_chain hcall rfl h
  | containment => exact (hcall bitwise w h).bind fun _ _ hv => sound_containerLoop hcall none hv
  | unary => exact sound_unary hcall h
  | operand => exact sound_operand hcall h
  | primary => exact sound_primary hcall h
  | member => exact sound_member hcall h
  | nameChain => exact sound_nameChain hcall h
  | argumentList =>
    exact sound_bracketed h ⟨rfl, rfl⟩ (by decide) (by decide) fun v hv => .onlyIf hv.toSound
      (fun _ => (hcall arguments v hv).imp (fun _ _ hu => hu.toSound) fun _ _ hu => hu)
      fun _ => hv.toSound
  | arguments => exact sound_arguments hcall h
  | argument => exact sound_argument hcall h
  | elementAccess =>
    exact sound_bracketed h ⟨rfl, rfl⟩ (by decide) (by decide) fun v hv =>
      (hcall arguments v hv).imp (fun _ _ hu => hu.toSound) fun _ _ hu => hu
  | creation => exact sound_creation hcall h
  | parenthesized =>
    exact sound_bracketed h.1 ⟨rfl, rfl⟩ (by decide) (by decide) fun v hv =>
      (hcall conditional v hv).imp (fun _ _ hu => hu.toSound) fun _ _ hu => hu
  | text => exact sound_text h

/-- **Every rule keeps the order of the stack, whatever its budget.** -/
theorem sound_run (parsing : Parsing) (budget : Nat) : Orderly text low (run parsing budget) := by
  induction budget with
  | zero =>
    intro r w h
    have hsound : Sound text low w := by
      cases r with
      | operand | primary | member | parenthesized | creation | text => exact h.1
      | argumentList | elementAccess => exact h
      | _ => exact h.toSound
    exact .fail hsound (hsound.fails rfl)
  | succ budget ih => exact sound_body ih

end Rule

end TypeAhead.Fragment
