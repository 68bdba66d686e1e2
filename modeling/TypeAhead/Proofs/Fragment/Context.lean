/-
  TypeAhead.Proofs.Fragment.Context — THE TRAILING FRAGMENT DOES NOT DEPEND ON WHAT STANDS BEFORE IT.

  After an operator, an opening parenthesis or an opening bracket, an expression
  is walked as it is by itself.  What stands before an operator or a bracket has
  come to an edge there: of all that is under way, most only looks whether the next
  token is one to go on with, and one rule is there to catch it.  An operator is
  caught by the innermost rule for it, which goes on in step with the same rule
  where the expression stands alone; a bracket is caught by the innermost operand.

      Point.pass                       most points only look at the next token
      trailing_fragment_in_context     the answer after operators and brackets
-/
import TypeAhead.Proofs.Fragment.Settled

namespace TypeAhead.Fragment

open Walker

namespace Rule

variable {parsing : Parsing} {text : List Char} {budget : Nat} {call : Rule → Locator Unit}
  {rule sub : Rule} {test : Cursor → Bool} {after : Located → Located} {w u : Walk (List Nat)}
  {o : Located} {start : Nat}

/-! ## §1. At the edge. -/

/-- A loop that has more to do makes a step and goes on, unless it is out of budget. -/
theorem run_goOn_of_test (step : Locator Unit) (k : Option Nat) (h : test w.cursor = true) :
    ((goOn test step k).run w).TooDeep ∨ ∃ k', (goOn test step k).run w =
      (step.run w).andThen fun _ => goOn test step (some k') := by
  rw [run_goOn]
  cases k.getD (w.cursor.size + 2) with
  | zero => exact .inl ⟨_, w, rfl⟩
  | succ k' => exact .inr ⟨k', run_loop_of_test step k' h⟩

/-- Where no literal stands, none follows those in a row. -/
theorem run_literalStep_of_not {joined : String} (hw : w.cursor.current.kind ≠ .stringLiteral) :
    (literalStep joined).run w = .ok (false, joined) w := by
  show (if w.cursor.current.kind = .stringLiteral then (do
      advance
      pure (true, joined ++ w.cursor.current.text)) else pure (false, joined) :
    Locator (Bool × String)).run w = _
  rw [if_neg hw]
  rfl

/-- Behind a name there may be nothing that belongs to it. -/
theorem run_afterName_of_not (hw : w.cursor.current.kind ∉ [.arrow, .dot, .plus, .openParen]) :
    (afterName call).run w = .ok () w := by
  simp only [List.mem_cons, List.not_mem_nil, or_false, not_or] at hw
  have harrow : w.cursor.isKind .arrow = false := by simpa [Cursor.isKind] using hw.1
  have hjoint : isJoint w.cursor = false := by simp [isJoint, Cursor.isAny, hw.2.1, hw.2.2.1]
  have hparen : w.cursor.isKind .openParen = false := by simpa [Cursor.isKind] using hw.2.2.2
  show (if w.cursor.isKind .arrow then _ else (do
    onlyIf isJoint (call nameChain)
    onlyIf (fun c => c.isKind .openParen) (call argumentList)) : Locator Unit).run w = _
  rw [harrow]
  show ((onlyIf isJoint (call nameChain)).run w).andThen _ = _
  rw [run_onlyIf_of_not hjoint]
  exact run_onlyIf_of_not hparen

/-- **Most points only look at the next token.**  What a literal or a name could go on with has to be
left out, a name where a chain of names may go on with it, and the words of a containment after one. -/
theorem Point.pass {rest : Walk (List Nat) → Located} (h : Point parsing call text rule rest)
    (hkind : u.cursor.current.kind ∉ [.stringLiteral, .arrow, .dot, .plus, .openParen])
    (hname : rule = nameChain → u.cursor.current.kind ≠ .identifier)
    (hlist : rule = containment → startsContainment u.cursor = false) :
    (rest u).TooDeep ∨ rest u = .ok () u := by
  simp only [List.mem_cons, List.not_mem_nil, or_false, not_or] at hkind
  obtain ⟨hstring, harrow, hdot, hplus, hparen⟩ := hkind
  have hjoint : isJoint u.cursor = false := by simp [isJoint, Cursor.isAny, hdot, hplus]
  -- A chain looks for a joint first, and then for a name that is a member of it.
  have hlink : ∀ k, u.cursor.current.kind ≠ .identifier →
      ((afterLink call (some k)).run u).TooDeep ∨ (afterLink call (some k)).run u = .ok () u := by
    intro k hname
    show (Walk.Outcome.andThen _ _).TooDeep ∨ Walk.Outcome.andThen _ _ = _
    rcases run_goOn_of_not (do advance; linkedName) (some k) hjoint with hdeep | hok
    · exact .inl (hdeep.andThen _)
    · rw [hok]
      exact .inr (run_onlyIf_of_not (by simpa [Cursor.isKind] using hname))
  cases h with
  | closed => exact .inr rfl
  -- The row is over, and its value has been read before: it cannot fail now.
  | @literals k joined position value hvalue =>
    cases k with
    | zero => exact .inl ⟨_, u, rfl⟩
    | succ k =>
      right
      show (((literalStep joined).run u).andThen _).andThen _ = _
      rw [run_literalStep_of_not hstring]
      show ((literalValue parsing joined).run u).andThen _ = _
      rw [run_literalValue]
      rcases value_congr parsing.dialect joined position u.cursor.current.start with
        ⟨_, -, hvalue'⟩ | ⟨_, herror, -⟩
      · rw [hvalue']
        rfl
      · cases hvalue.symm.trans herror
  | named => exact .inr (run_afterName_of_not (by simp [harrow, hdot, hplus, hparen]))
  -- Behind a joint a name might go on, and there is none.
  | joint k =>
    show ((linkedName.run u).andThen fun _ => afterLink call (some k)).TooDeep ∨
      (linkedName.run u).andThen (fun _ => afterLink call (some k)) = .ok () u
    rw [linkedName, run_onlyIf_of_not (by simpa [Cursor.isKind] using hname rfl)]
    exact hlink k (hname rfl)
  | linked k => exact hlink k (hname rfl)
  | listed k => exact run_goOn_of_not _ _ (hlist rfl)

/-! ## §2. Brackets. -/

variable {P : String} {starts : List Nat} {c d : Cursor} {shift : Nat}

/-- A token of the kind that is expected is gone past. -/
theorem run_expect {kind : TokenKind} {cause : Cause} (hkind : w.cursor.current.kind = kind)
    (hnext : w.cursor.next = .ok c) :
    (expect kind cause).run w = .ok () { w with cursor := c } := by
  have hrequire : (require kind cause : Locator Unit).run w = .ok () w := by
    rw [require, run_demand]
    exact if_pos (by simpa [Cursor.isKind] using hkind)
  show ((require kind cause : Locator Unit).run w).andThen _ = _
  rw [hrequire]
  exact run_advance hnext

/-- What a rule does that goes by the kind of the current token. -/
theorem run_kind {α : Type} {kind : TokenKind} (hkind : w.cursor.current.kind = kind)
    (f : TokenKind → Locator α) : (Walker.kind >>= f).run w = (f kind).run w := by
  subst hkind
  rfl

/-- An operand in parentheses settles where the expression in it does. -/
theorem settled_parenthesized (hP : Completes parsing P starts) (hstart : starts.head? = some start)
    (hopen : Cursor.open? P.toList = .ok c) (hkind : w.cursor.current.kind = .openParen)
    (hnext : w.cursor.next = .ok d) (halike : Alike P.toList [] shift c d) (budget : Nat) :
    Settled (start + shift) ((run parsing budget primary).run w) := by
  have hparenthesized : ∀ budget,
      Settled (start + shift) ((run parsing budget parenthesized).run w) := by
    intro budget
    cases budget with
    | zero => exact .inl ⟨_, w, rfl⟩
    | succ budget =>
      show Settled _ (((expect .openParen .openParenExpected : Locator Unit).run w).andThen fun _ => do
        run parsing budget conditional
        expect .closeParen .closeParenOrOperatorExpected)
      rw [run_expect hkind hnext]
      -- In the parenthesis the expression is walked as by itself; behind it a parenthesis is missing.
      exact (hP.settled hstart hopen (w := { w with cursor := d }) halike budget).andThen
        fun _ => halts_expect _ _
  cases budget with
  | zero => exact .inl ⟨_, w, rfl⟩
  | succ budget =>
    have hrun : (run parsing (budget + 1) primary).run w = (run parsing budget parenthesized).run w :=
      run_kind hkind _
    rw [hrun]
    exact hparenthesized budget

/-- The words of a discarded argument are not what the text starts with. -/
theorem run_body_argument {call : Rule → Locator Unit} (hout : w.cursor.isOneOf outWords [] = false) :
    (body parsing call argument).run w = (call conditional).run w := by
  have hfalse : discardedOut.run w = .ok false w := by
    show (if w.cursor.isOneOf outWords [] then _ else pure false : Locator Bool).run w = _
    rw [hout]
    rfl
  show (discardedOut.run w).andThen _ = _
  rw [hfalse]
  rfl

/-- An element of an operand settles where the expression in the brackets does. -/
theorem settled_elementAccess (hP : Completes parsing P starts) (hstart : starts.head? = some start)
    (hopen : Cursor.open? P.toList = .ok c) (hout : c.isOneOf outWords [] = false)
    (hkind : w.cursor.current.kind = .openBracket) {d' : Cursor} (hnext : w.cursor.next = .ok d')
    (halike : Alike P.toList [] shift c d') (budget : Nat) :
    Settled (start + shift) ((run parsing budget elementAccess).run w) := by
  have hout' : d'.isOneOf outWords [] = false :=
    (readsToken_isOneOf _ _ c d' halike.kind_eq halike.text_eq).trans hout
  -- The expression is the first argument, and the list is over with the text.
  have hargument : ∀ budget,
      Settled (start + shift) ((run parsing budget argument).run { w with cursor := d' }) := by
    intro budget
    cases budget with
    | zero => exact .inl ⟨_, _, rfl⟩
    | succ budget =>
      rw [run, run_body_argument hout']
      exact hP.settled hstart hopen (w := { w with cursor := d' }) halike budget
  have harguments : ∀ budget,
      Settled (start + shift) ((run parsing budget arguments).run { w with cursor := d' }) := by
    intro budget
    cases budget with
    | zero => exact .inl ⟨_, _, rfl⟩
    | succ budget =>
      exact (hargument budget).andThen fun _ => halts_goOn (do advance; run parsing budget argument)
        none fun _ hc => isKind_finish (by decide) hc
  cases budget with
  | zero => exact .inl ⟨_, _, rfl⟩
  | succ budget =>
    show Settled _ (((expect .openBracket .openParenExpected : Locator Unit).run w).andThen fun _ => do
      run parsing budget arguments
      expect .closeBracket .closeBracketOrCommaExpected)
    rw [run_expect hkind hnext]
    exact (harguments budget).andThen fun _ => halts_expect _ _

/-- What may become of a rule at an opening bracket: an operand has caught it, or no operand was
open and nothing was done. -/
def Bracketed (start : Nat) (u : Walk (List Nat)) (o : Located) : Prop :=
  Settled start o ∨ ∃ v, o = .ok () v ∧ SamePlace u v

/-- **The innermost operand catches a bracket.** -/
theorem bracketed_of_ends (hP : Completes parsing P starts) (hstart : starts.head? = some start)
    (hopen : Cursor.open? P.toList = .ok c) (hout : c.isOneOf outWords [] = false)
    (hkind : u.cursor.current.kind = .openBracket) {d' : Cursor} (hnext : u.cursor.next = .ok d')
    (halike : Alike P.toList [] shift c d') (h : Ends parsing text u budget rule o) :
    Bracketed (start + shift) u o := by
  have hcontains : startsContainment u.cursor = false := by
    simp [startsContainment, Cursor.isOneOf, hkind]
  -- From the place where the text ends outwards, rule by rule.
  induction h with
  | point h =>
    rcases h.pass (u := u) (by rw [hkind]; decide) (fun _ => by rw [hkind]; decide)
      (fun _ => hcontains) with hdeep | hok
    · exact .inl (.inl hdeep)
    · exact .inr ⟨u, hok, rfl, rfl⟩
  | @within budget rule sub test after o h _ ih =>
    rcases ih with hsettled | ⟨v, rfl, hv⟩
    · exact .inl (h.settled hsettled)
    -- Rules inside the operand leave the bracket alone; the operand takes it.
    by_cases hoperand : rule = operand
    · subst hoperand
      left
      cases h with
      | operators _ h => cases h
      | last h => cases h
      | attached k hsub =>
        have hattached : isAttached v.cursor = true := by
          simp [isAttached, Cursor.isAny, hv.1, hkind]
        show Settled _ (((goOn isAttached (attachment (run parsing budget)) k).run v).andThen _)
        rcases run_goOn_of_test (attachment (run parsing budget)) k hattached with
          hdeep | ⟨k', hrun⟩
        · exact .inl (hdeep.andThen _)
        have hattachment : (attachment (run parsing budget)).run v =
            (run parsing budget elementAccess).run v :=
          run_kind (by rw [hv.1, hkind]) _
        have hsettled := settled_elementAccess hP hstart hopen hout (w := v)
          (by rw [hv.1, hkind]) (by rw [hv.1, hnext]) halike budget
        rw [hrun, hattachment]
        refine (hsettled.andThen fun _ => halts_goOn _ _ fun _ => isAttached_finish).andThen
          fun _ w hw => .inr ⟨closed w, ⟨rfl, if_pos hw⟩, .inl ⟨(), rfl⟩⟩
    · have htest : test v.cursor = false := by
        rw [hv.1]
        exact h.test_of_not (by rw [hkind]; decide) (by rw [Cursor.isWord, hkind]; rfl)
          (fun _ => hcontains) fun heq => absurd heq hoperand
      rcases h.pass htest with hdeep | ⟨v', hv', hcursor, hheld⟩
      · exact .inl (.inl hdeep)
      · exact .inr ⟨v', hv', hcursor.trans hv.1, (hheld (.inl hoperand)).trans hv.2⟩

/-! ## §3. Operators. -/

/-- How loosely a rule binds; the rules below conjunctions do not differ. -/
def looseness : Rule → Nat
  | conjunction => 1
  | disjunction => 2
  | projection => 3
  | coalescing => 4
  | conditional => 5
  | _ => 0

/-- Around a rule that binds so loosely, the next one does not bind more loosely by more than a step,
and not tighter, unless a whole expression is part of it. -/
theorem Frame.looseness_le (h : Frame call rule sub test after) :
    rule.looseness ≤ sub.looseness + 1 ∧ (sub = conditional ∨ sub.looseness ≤ rule.looseness) := by
  cases h with
  | operators _ h => cases rule <;> cases h <;> decide
  | container _ h => rcases h with rfl | rfl <;> decide
  | unary h => rcases h with rfl | rfl <;> decide
  | attached _ h => rcases h with rfl | rfl | rfl <;> decide
  | last h => cases rule <;> cases sub <;> simp_all [endsWith, looseness]
  | _ => decide

/-- The outcome is in step with that of the rule where the expression stands alone. -/
def Tracks (parsing : Parsing) (P : String) (c : Cursor) (shift : Nat) (rule : Rule) (o : Located) :
    Prop :=
  ∃ base, ∀ budget depth, (within P.toList [] shift base follows_nil).Locked (fun _ _ _ => False)
    ((run parsing budget rule).run ⟨c, depth, []⟩) o

/-- Nothing comes after the expression, so the walks do not part. -/
theorem locked_alone {base : List Nat} {K : Unit → Walk (List Nat) → Located → Prop} {o o' : Located}
    (h : (within P.toList [] shift base follows_nil).Locked
      ((within P.toList [] shift base follows_nil).At K) o o') :
    (within P.toList [] shift base follows_nil).Locked (fun _ _ _ => False) o o' :=
  h.imp fun _ _ _ ⟨_, hparted, _⟩ => hparted.cross.1 rfl

/-- Both walks go on in step after a call. -/
theorem Tracks.andThen (h : Tracks parsing P c shift sub o) (rest : Nat → Locator Unit)
    {f : Locator Unit} (hrun : ∀ budget, run parsing (budget + 1) rule = (do
      run parsing budget sub
      rest budget))
    (hrest : ∀ base budget w v, (within P.toList [] shift base follows_nil).Paired w v →
      (within P.toList [] shift base follows_nil).Locked (fun _ _ _ => False)
        ((rest budget).run w) (f.run v)) :
    Tracks parsing P c shift rule (o.andThen fun _ => f) := by
  obtain ⟨base, h⟩ := h
  refine ⟨base, fun budget depth => ?_⟩
  cases budget with
  | zero => exact .deepFirst ⟨_, _, rfl⟩
  | succ budget =>
    rw [hrun budget]
    exact (h budget depth).andThen_inside fun _ w v _ hpaired => hrest base budget w v hpaired

/-- **Rules that bind more loosely go on in step as well.** -/
theorem Tracks.frame (h : Tracks parsing P c shift sub o)
    (hframe : Frame (run parsing budget) rule sub test after)
    (hsub : 0 < sub.looseness ∧ sub ≠ conditional) (hrule : rule ≠ conditional) :
    Tracks parsing P c shift rule (after o) := by
  -- What the frame does after the rule is done in step, or it ends with the rule.
  cases hframe with
  | question => exact absurd rfl hrule
  | alternative => exact absurd rfl hrule
  | coalesce =>
    exact h.andThen (fun budget => fallback (run parsing budget)) (fun _ => rfl)
      fun _ _ _ _ hpaired => locked_alone (locked_fallback (inStep_run _ parsing _ _) hpaired)
  | arrow =>
    exact h.andThen (fun budget => arrow (run parsing budget)) (fun _ => rfl)
      fun _ _ _ _ hpaired => locked_arrow (inStep_run _ parsing _ _) hpaired
  | operators k hoperators =>
    refine h.andThen (fun budget => goOn test (do advance; run parsing budget sub) none)
      (fun budget => body_operators hoperators (run parsing budget)) fun _ _ _ _ hpaired => ?_
    exact locked_alone (locked_operatorLoop (inStep_run _ parsing _ _) hoperators hpaired none k)
  | container _ hsub' => rcases hsub' with rfl | rfl <;> exact absurd hsub.1 (by decide)
  | unary hsub' => rcases hsub' with rfl | rfl <;> exact absurd hsub.1 (by decide)
  | attached _ hsub' => rcases hsub' with rfl | rfl | rfl <;> exact absurd hsub.1 (by decide)
  | chain => exact absurd hsub.1 (by decide)
  | last hends => cases rule <;> cases sub <;> simp_all [endsWith, looseness]

/-- **Where the expression stands alone the walk is complete, so in step with it the longer one
settles.** -/
theorem Tracks.settled (h : Tracks parsing P c shift coalescing o) (hP : Completes parsing P starts)
    (hstart : starts.head? = some start) (hopen : Cursor.open? P.toList = .ok c) :
    Settled (start + shift) (o.andThen fun _ => choice (run parsing budget)).leave := by
  obtain ⟨base, h⟩ := h
  obtain ⟨c', w, hopen', hwalk, hw, rfl⟩ := hP
  cases hopen.symm.trans hopen'
  -- The walk of the expression alone is one level deeper where it calls the same rule.
  obtain ⟨v, hv, hvw⟩ : ∃ v, ((run parsing (Rule.budget c.size - 1) coalescing).run ⟨c, 1, []⟩).andThen
      (fun _ => choice (run parsing (Rule.budget c.size - 1))) = .ok () v ∧ SamePlace v w := by
    have hsucc : Rule.budget c.size = Rule.budget c.size - 1 + 1 := by
      simp only [Rule.budget]
      omega
    have hwalk : (run parsing (Rule.budget c.size) conditional).run ⟨c, 0, []⟩ = .ok () w := hwalk
    rw [hsucc] at hwalk
    obtain ⟨-, v, hinner, rfl⟩ := eq_ok_of_nested hwalk
    exact ⟨v, hinner, rfl, rfl⟩
  -- Both walks go on in step to the end of the expression, which settles the longer one.
  have hlocked := (h (Rule.budget c.size - 1) 1).andThen_inside
    (f := fun _ => choice (run parsing (Rule.budget c.size - 1)))
    (g := fun _ => choice (run parsing budget)) (M := fun _ _ _ => False)
    fun _ _ _ _ hpaired => locked_alone (locked_choice (inStep_run _ parsing _ _) hpaired)
  have hsettled := settled_of_locked hlocked hv (hvw.1 ▸ hw) (hvw.2 ▸ hstart)
  have halternative : Frame (run parsing budget) conditional conditional (fun _ => false)
    Walk.Outcome.leave := .alternative
  exact halternative.settled hsettled

/-- What may become of a rule at an operator: it has found its fragment, or the operator is left to a
rule that binds more loosely, or the operator was caught and the walk goes on in step with that of the
expression after it. -/
inductive Joined (parsing : Parsing) (P : String) (c : Cursor) (start shift : Nat) (catcher : Rule)
    (u : Walk (List Nat)) (rule : Rule) : Located → Prop where
  | settled {o : Located} (h : Settled (start + shift) o) :
      Joined parsing P c start shift catcher u rule o
  | passed {v : Walk (List Nat)} (hrule : rule.looseness < catcher.looseness)
      (hv : v.cursor = u.cursor) : Joined parsing P c start shift catcher u rule (.ok () v)
  | caught {o : Located} (hrule : catcher.looseness ≤ rule.looseness ∧ rule ≠ conditional)
      (h : Tracks parsing P c shift rule o) : Joined parsing P c start shift catcher u rule o

/-- The rules that catch the operators between conditions. -/
def Catches (catcher : Rule) (kind : TokenKind) : Prop :=
  catcher = conjunction ∧ kind = .doubleAmpersand ∨ catcher = disjunction ∧ kind = .doubleBar

/-- What catches an operator is looser than an operand. -/
theorem Catches.looseness_pos {catcher : Rule} {kind : TokenKind} (h : Catches catcher kind) :
    0 < catcher.looseness := by
  rcases h with ⟨rfl, -⟩ | ⟨rfl, -⟩ <;> decide

/-- No rule but the one that catches the operator binds just as loosely. -/
theorem Catches.eq_of_looseness {catcher : Rule} {kind : TokenKind} (h : Catches catcher kind)
    (hrule : rule.looseness = catcher.looseness) : rule = catcher := by
  rcases h with ⟨rfl, -⟩ | ⟨rfl, -⟩ <;> cases rule <;> simp_all [looseness]

/-- No such operator is an `in`. -/
theorem Catches.startsContainment {catcher : Rule} {d : Cursor} (h : Catches catcher d.current.kind) :
    startsContainment d = false := by
  rcases h with ⟨-, hkind⟩ | ⟨-, hkind⟩ <;> simp [Rule.startsContainment, Cursor.isOneOf, hkind]

/-- The rule takes the operator for one of its own. -/
theorem Catches.takes {catcher : Rule} {d : Cursor} (h : Catches catcher d.current.kind)
    (hoperators : catcher.operators? = some (sub, test)) : test d = true := by
  rcases h with ⟨rfl, hkind⟩ | ⟨rfl, hkind⟩ <;> cases hoperators <;> simp [Cursor.isKind, hkind]

/-- A rule that binds more tightly does not take the operator. -/
theorem Catches.leaves {catcher : Rule} {d : Cursor} (h : Catches catcher d.current.kind)
    (hframe : Frame call rule sub test after) (hrule : rule.looseness < catcher.looseness) :
    test d = false := by
  have hcontains := h.startsContainment
  cases hframe with
  | operators _ hoperators =>
    rcases h with ⟨rfl, hkind⟩ | ⟨rfl, hkind⟩ <;> cases rule <;> cases hoperators <;>
      simp_all [Cursor.isKind, Cursor.isAny, Cursor.isWord, TokenKind.isComparison, looseness]
  | container => exact hcontains
  | _ => rcases h with ⟨-, hkind⟩ | ⟨-, hkind⟩ <;> simp [Cursor.isKind, isAttached, Cursor.isAny, hkind]

/-- The operator is caught: its right operand is the first one of the expression, and the loop goes on
with what the expression goes on with. -/
theorem tracks_of_caught {catcher : Rule} (hoperators : catcher.operators? = some (sub, test))
    (htest : test w.cursor = true) (hnext : w.cursor.next = .ok d)
    (halike : Alike P.toList [] shift c d) (k : Option Nat) :
    Tracks parsing P c shift catcher
      ((goOn test (do advance; run parsing budget sub) k).run w) := by
  -- The walks meet behind the operator; what is open in the longer one stays below.
  refine ⟨w.held, fun budget' depth => ?_⟩
  rcases run_goOn_of_test (do advance; run parsing budget sub) k htest with
    hdeep | ⟨k', hrun⟩
  · exact .deepSecond hdeep
  have hstep : (do advance; run parsing budget sub : Locator Unit).run w =
      (run parsing budget sub).run { w with cursor := d } := by
    show (advance.run w).andThen _ = _
    rw [run_advance hnext]
    rfl
  have hsub := operators?_sub hoperators
  have hpaired : (within P.toList [] shift w.held follows_nil).Paired ⟨c, depth, []⟩
      { w with cursor := d } := ⟨halike, [], rfl, .nil⟩
  rw [hrun, hstep]
  -- Without a budget the shorter walk is too deep; otherwise its body calls for the same operand.
  cases budget' with
  | zero => exact .deepFirst ⟨_, _, rfl⟩
  | succ budget' =>
    have hbody : run parsing (budget' + 1) catcher = chain (run parsing budget') sub test :=
      body_operators hoperators (run parsing budget')
    rw [hbody]
    refine (locked_alone ((inStep_run _ parsing budget' budget).enter hpaired
      ⟨hsub.1, hsub.2.1, hsub.2.2.1⟩)).andThen_inside ?_
    intro _ _ _ _ hpaired
    exact locked_alone (locked_operatorLoop (inStep_run _ parsing budget' budget) hoperators hpaired
      none (some k'))

/-- From a rule to the one around it: an operator that has not been caught is caught by the rule for it, and
left alone by one that binds more tightly. -/
theorem Joined.frame {catcher : Rule} (hP : Completes parsing P starts) (hstart : starts.head? = some start)
    (hopen : Cursor.open? P.toList = .ok c) (hcatcher : Catches catcher u.cursor.current.kind)
    (hnext : u.cursor.next = .ok d) (halike : Alike P.toList [] shift c d)
    (hframe : Frame (run parsing budget) rule sub test after)
    (h : Joined parsing P c start shift catcher u sub o) :
    Joined parsing P c start shift catcher u rule (after o) := by
  cases h with
  | settled hsettled => exact .settled (hframe.settled hsettled)
  -- The operator has been caught further in; the conditional around it settles the rest.
  | caught hsub htracks =>
    by_cases hrule : rule = conditional
    · subst hrule
      cases hframe with
      | question => exact .settled (htracks.settled hP hstart hopen)
      | alternative => exact absurd rfl hsub.2
      | operators _ h => cases h
      | last h => cases h
    · have hloose := hframe.looseness_le.2.resolve_left hsub.2
      have hpos := hcatcher.looseness_pos
      exact .caught ⟨by omega, hrule⟩ (htracks.frame hframe ⟨by omega, hsub.2⟩ hrule)
  | @passed v hsub hv =>
    rw [← hv] at hcatcher hnext
    have hloose := hframe.looseness_le.1
    -- The rule binds more tightly than the one that catches the operator, or it is that one.
    by_cases hrule : rule.looseness < catcher.looseness
    · rcases hframe.pass (hcatcher.leaves hframe hrule) with hdeep | ⟨v', hv', hcursor, -⟩
      · exact .settled (.inl hdeep)
      · rw [hv']
        exact .passed hrule (hcursor.trans hv)
    -- This is the rule that catches it, with the operand behind it.
    · obtain rfl : rule = catcher := hcatcher.eq_of_looseness (by omega)
      have hconditional : rule ≠ conditional := by
        rcases hcatcher with ⟨rfl, -⟩ | ⟨rfl, -⟩ <;> decide
      cases hframe with
      | operators k hoperators =>
        exact .caught ⟨Nat.le_refl _, hconditional⟩
          (tracks_of_caught hoperators (hcatcher.takes hoperators) hnext halike k)
      | last h => rcases hcatcher with ⟨rfl, -⟩ | ⟨rfl, -⟩ <;> cases h
      | _ => rcases hcatcher with ⟨h, -⟩ | ⟨h, -⟩ <;> cases h

/-- **The innermost rule for an operator catches it.** -/
theorem joined_of_ends {catcher : Rule} (hP : Completes parsing P starts)
    (hstart : starts.head? = some start) (hopen : Cursor.open? P.toList = .ok c)
    (hcatcher : Catches catcher u.cursor.current.kind) (hnext : u.cursor.next = .ok d)
    (halike : Alike P.toList [] shift c d) (h : Ends parsing text u budget rule o) :
    Joined parsing P c start shift catcher u rule o := by
  -- From the place where the first text ends outwards.  At that place nothing stops at an operator.
  induction h with
  | @point budget rule rest h =>
    have hrule : rule.looseness = 0 := by
      cases h with
      | @closed rule h => cases rule <;> simp_all [closes, looseness]
      | _ => rfl
    have hkind : u.cursor.current.kind = .doubleAmpersand ∨ u.cursor.current.kind = .doubleBar :=
      hcatcher.imp And.right And.right
    rcases h.pass (u := u) (by rcases hkind with hkind | hkind <;> rw [hkind] <;> decide)
      (fun _ => by rcases hkind with hkind | hkind <;> rw [hkind] <;> decide)
      (fun _ => hcatcher.startsContainment) with hdeep | hok
    · exact .settled (.inl hdeep)
    · rw [hok]
      exact .passed (hrule ▸ hcatcher.looseness_pos) rfl
  | within hframe _ ih => exact ih.frame hP hstart hopen hcatcher hnext halike hframe

/-- A whole expression leaves no operator between conditions to others. -/
theorem Joined.of_conditional {catcher : Rule} {kind : TokenKind} (hcatcher : Catches catcher kind)
    (h : Joined parsing P c start shift catcher u conditional o) : Settled (start + shift) o := by
  cases h with
  | settled h => exact h
  | passed h => rcases hcatcher with ⟨rfl, -⟩ | ⟨rfl, -⟩ <;> exact absurd h (by decide)
  | caught h => exact absurd rfl h.2

end Rule

/-! ## §4. The answer. -/

theorem spells_and : Spells " && ".toList .doubleAmpersand "&&" :=
  ⟨⟨' ', _, rfl, by decide⟩, by decide, 1, [' '], List.all_eq_true.1 rfl, by decide, fun _ _ _ => rfl⟩

theorem spells_or : Spells " || ".toList .doubleBar "||" :=
  ⟨⟨' ', _, rfl, by decide⟩, by decide, 1, [' '], List.all_eq_true.1 rfl, by decide, fun _ _ _ => rfl⟩

theorem spells_parenthesis : Spells "(".toList .openParen "(" :=
  ⟨⟨'(', _, rfl, by decide⟩, by decide, 0, [], nofun, by decide, fun _ _ _ => rfl⟩

theorem spells_bracket : Spells "[".toList .openBracket "[" :=
  ⟨⟨'[', _, rfl, by decide⟩, by decide, 0, [], nofun, by decide, fun _ _ _ => rfl⟩

variable {parsing : Parsing} {A P : String} {startsA starts : List Nat} {start : Nat} {c : Cursor}

/-- A prefix that can be completed can be read. -/
theorem Completes.opens (h : Completes parsing P starts) : ∃ c, Cursor.open? P.toList = .ok c :=
  h.imp fun _ ⟨_, hopen, _⟩ => hopen

/-- **A complete walk goes on at the edge** if another text follows after a token. -/
theorem Completes.edge (hA : Completes parsing A startsA) {front : String} {kind : TokenKind}
    {word : String} (hspells : Spells front.toList kind word) (hopen : Cursor.open? P.toList = .ok c) :
    ∃ d, Cursor.open? (A ++ front ++ P).toList = .ok d ∧ ((walk parsing d).TooDeep ∨ ∃ u d' top,
      u.cursor.current.kind = kind ∧ u.cursor.current.text = word ∧ u.cursor.next = .ok d' ∧
      Alike P.toList [] (A ++ front).utf8ByteSize c d' ∧ u.held = top ∧ top.length = startsA.length ∧
      Rule.Ends parsing A.toList u (Rule.budget d.size) .conditional (walk parsing d)) := by
  have htext : (A ++ front ++ P).toList = A.toList ++ (front.toList ++ (P.toList ++ [])) := by simp
  have hmore := hspells.follows (P.toList ++ [])
  have hne : front.toList ++ (P.toList ++ []) ≠ [] := by
    obtain ⟨e, rest, hfront, -⟩ := hspells.separates
    rw [hfront]
    exact nofun
  obtain ⟨cA, hopenA⟩ := hA.opens
  obtain ⟨d, hd, halike⟩ := open_before hmore hopenA fun _ => hA.isFinish_of_open hopenA
  refine ⟨d, by rw [htext]; exact hd, ?_⟩
  -- The walk of the longer text is in step with that of the first one up to its end.
  refine (hA.ends hmore hne hopenA (w := ⟨d, 0, []⟩) halike (Rule.budget d.size)).imp id ?_
  rintro ⟨u, hedge, hends⟩
  obtain ⟨hkind, hword, d', hnext, halike'⟩ :=
    hedge.next hspells follows_nil hopen fun h => absurd rfl h
  -- What is open there is what the walk of the first text left open.
  obtain ⟨top, htop, hplaces⟩ := hedge.held
  have hsize : Text.byteSize A.toList + 0 + Text.byteSize front.toList = (A ++ front).utf8ByteSize := by
    rw [← Text.byteSize_toList]
    simp
  refine ⟨u, d', top, hkind, hword, hnext, hsize ▸ halike', ?_, hplaces.length_eq.symm, hends⟩
  rw [htop, List.append_nil]

/-- After an operator between conditions. -/
theorem locates_after_operator (hA : Completes parsing A startsA) (hP : Completes parsing P starts)
    (hstart : starts.head? = some start) {operator word : String} {kind : TokenKind} {catcher : Rule}
    (hspells : Spells operator.toList kind word) (hcatcher : Rule.Catches catcher kind) :
    Locates parsing (A ++ operator ++ P) (start + (A ++ operator).utf8ByteSize) := by
  obtain ⟨c, hopen⟩ := hP.opens
  obtain ⟨d, hd, hdeep | ⟨u, d', _, hkind, -, hnext, halike, -, -, hends⟩⟩ := hA.edge hspells hopen
  · exact locates_of_settled hd (.inl hdeep)
  · exact locates_of_settled hd ((Rule.joined_of_ends hP hstart hopen (hkind ▸ hcatcher) hnext halike
      hends).of_conditional hcatcher)

/-- In parentheses. -/
theorem locates_in_parentheses (hP : Completes parsing P starts) (hstart : starts.head? = some start) :
    Locates parsing ("(" ++ P) (start + "(".utf8ByteSize) := by
  obtain ⟨c, hopen⟩ := hP.opens
  have htext : ("(" ++ P).toList = "(".toList ++ (P.toList ++ []) := by simp
  obtain ⟨d, hd⟩ := spells_parenthesis.exists_read (Text.byteSize ("(" ++ P).toList) none 0
    (P.toList ++ [])
  obtain ⟨hkind, -, d', hnext, halike⟩ := spells_parenthesis.read follows_nil hopen
    (fun h => absurd rfl h) hd
  rw [Nat.zero_add, Text.byteSize_toList] at halike
  rw [← htext] at hd
  refine locates_of_settled hd ?_
  refine Rule.of_primary (c := d) (fun _ h => .inl h) (fun hframe h => hframe.settled h) ?_ ?_ _ rfl rfl
    rfl (Nat.zero_le _)
  · simp [Rule.isSign, Cursor.isAny, Cursor.isWord, hkind]
  · intro budget w hw _ _
    exact Rule.settled_parenthesized hP hstart hopen (hw ▸ hkind) (hw ▸ hnext) halike budget

/-- In brackets after an operand. -/
theorem locates_in_brackets {T : String} {startsT : List Nat} (hT : Completes parsing T startsT)
    (hopenT : startsT ≠ []) (hP : Completes parsing P starts) (hstart : starts.head? = some start)
    (hout : ∀ c, Cursor.open? P.toList = .ok c → c.isOneOf outWords [] = false) :
    Locates parsing (T ++ "[" ++ P) (start + (T ++ "[").utf8ByteSize) := by
  obtain ⟨c, hopen⟩ := hP.opens
  obtain ⟨d, hd, hdeep | ⟨u, d', top, hkind, -, hnext, halike, hheld, hlength, hends⟩⟩ :=
    hT.edge spells_bracket hopen
  · exact locates_of_settled hd (.inl hdeep)
  refine locates_of_settled hd ?_
  rcases Rule.bracketed_of_ends hP hstart hopen (hout c hopen) hkind hnext halike hends with
    hsettled | ⟨v, hv, hcursor, hopenv⟩
  · exact hsettled
  · -- If nothing had caught the bracket, an operand would be left open before it.
    have hclosed := ((Rule.restores_run parsing _ .conditional ⟨d, 0, []⟩).ok hv).closed
      (by rw [hcursor, Token.isFinish, hkind]; rfl)
    rw [hopenv, hheld] at hclosed
    rw [hclosed] at hlength
    exact absurd (List.length_eq_zero_iff.1 hlength.symm) hopenT

/-- The text starts with the words of a discarded argument. -/
def StartsOut (text : String) : Prop :=
  ∃ c, Cursor.open? text.toList = .ok c ∧ c.isOneOf outWords [] = true

/-- **The trailing fragment does not depend on what stands before it.**  After an operator between
conditions, an opening parenthesis, or an opening bracket where an operand is open, a text has the
fragment that it has by itself, unless the walk is too deep. -/
theorem trailing_fragment_in_context (parsing : Parsing) {A T P K : String}
    {startsA startsT startsP : List Nat} (hA : Completes parsing A startsA)
    (hT : Completes parsing T startsT) (hopenT : startsT ≠ []) (hP : Completes parsing P startsP)
    (hopenP : startsP ≠ [])
    (hK : K = A ++ " && " ∨ K = A ++ " || " ∨ K = "(" ∨ K = T ++ "[" ∧ ¬ StartsOut P) :
    ∃ r rP, locate parsing (K ++ P) = .ok r ∧ locate parsing P = .ok rP ∧
      ((∃ position, r.stoppedBy = some ⟨.tooDeep, position⟩) ∨
        r.start = K.utf8ByteSize + rP.start) := by
  obtain ⟨start, starts, rfl⟩ := List.exists_cons_of_ne_nil hopenP
  -- Each prefix leaves its own rule waiting for an expression.
  have hlocates : Locates parsing (K ++ P) (start + K.utf8ByteSize) := by
    rcases hK with rfl | rfl | rfl | ⟨rfl, hout⟩
    · exact locates_after_operator hA hP rfl spells_and (.inl ⟨rfl, rfl⟩)
    · exact locates_after_operator hA hP rfl spells_or (.inr ⟨rfl, rfl⟩)
    · exact locates_in_parentheses hP rfl
    · refine locates_in_brackets hT hopenT hP rfl fun c hc => ?_
      exact Bool.eq_false_iff.2 fun h => hout ⟨c, hc, h⟩
  obtain ⟨r, hr, hstart⟩ := hlocates
  refine ⟨r, _, hr, hP.locate, hstart.imp id fun h => ?_⟩
  rw [h, Nat.add_comm]
  rfl

/-- A name after an operator. -/
theorem trailing_fragment_in_context_name :
    Completes {} "a" [0] ∧ Completes {} "b" [0] ∧ ∃ r rP, locate {} ("a" ++ " && " ++ "b") = .ok r ∧
      locate {} "b" = .ok rP ∧ ((∃ position, r.stoppedBy = some ⟨.tooDeep, position⟩) ∨
        r.start = ("a" ++ " && ").utf8ByteSize + rP.start) := by
  have hA : Completes {} "a" [0] := ⟨_, _, rfl, rfl, rfl, rfl⟩
  have hP : Completes {} "b" [0] := ⟨_, _, rfl, rfl, rfl, rfl⟩
  exact ⟨hA, hP, trailing_fragment_in_context {} hA hA nofun hP nofun (.inl rfl)⟩

end TypeAhead.Fragment
