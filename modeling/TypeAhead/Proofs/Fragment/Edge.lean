/-
  TypeAhead.Proofs.Fragment.Edge — WHAT IS LEFT OF A RULE WHERE A TEXT ENDS.

  A rule that succeeds at the end of a text has read the last token itself, or a
  rule that it called has.  What is left of it then is little: a point in the body
  of the innermost rule, and for each rule around it what that does after its call.
  Every one of them only looks whether the next token is one it could go on with,
  and at the end of the text none is.

  In a longer text there is another token at the edge.  `Ends` collects what may
  become of a rule there; which of the rules goes on can be told by the test that
  each frame makes.

      Frame.pass       a frame whose test fails does nothing
      Ends             points and frames, put together
-/
import TypeAhead.Proofs.Fragment.Discipline
import TypeAhead.Proofs.Fragment.Lockstep
import TypeAhead.Proofs.Fragment.NameChain

namespace TypeAhead.Fragment

open Walker

/-- What comes of a rule of the locator. -/
abbrev Located := Walk.Outcome (List Nat) Unit

namespace Rule

/-! ## §1. Parts of bodies. -/

section

variable (parsing : Parsing) (call : Rule → Locator Unit)

/-- A chain of names after one of its names. -/
def afterLink (budget : Option Nat) : Locator Unit := do
  goOn isJoint (do advance; linkedName) budget
  onlyIf (fun c => c.isKind .identifier) (call member)

/-- Literals in a row after the first of them. -/
def afterLiteral (budget : Nat) (joined : String) : Locator Unit := do
  let joined ← repeatUpTo literalStep budget joined
  let _ ← literalValue parsing joined

/-- The rules that may be done with their last token. -/
def closes : Rule → Bool
  | primary | argumentList | elementAccess | creation | parenthesized | text => true
  | _ => false

/-- Whether a rule may be done when one that it calls is. -/
def endsWith : Rule → Rule → Bool
  | primary, member | primary, creation | primary, text | primary, parenthesized => true
  | member, conditional | member, argumentList | nameChain, member | coalescing, conditional => true
  | _, _ => false

/-! ## §2. Points and frames. -/

/-- The text ends in an open chain of names of which the last token is of the kind. -/
def ChainEnds (text : List Char) (kind : TokenKind) : Prop :=
  ∃ past c, Reaches text (kind :: past) c ∧ c.current.isFinish = true ∧
    endsInChain (kind :: past) = true

/-- Where a rule may have come to with the last token of a text, and what is left of it then. -/
inductive Point (text : List Char) : Rule → (Walk (List Nat) → Located) → Prop where
  | closed {rule : Rule} (h : rule.closes = true) : Point text rule fun u => .ok () u
  /-- After a literal that may have others after it. -/
  | literals (budget : Nat) {joined : String} {position : Nat} {value : String}
      (h : Literal.value parsing.dialect position joined = .ok value) :
      Point text .text fun u => (afterLiteral parsing budget joined).run u
  /-- After the name of a member. -/
  | named : Point text member fun u => (afterName call).run u
  /-- In a chain of names, after a dot or a plus. -/
  | joint (budget : Nat) {kind : TokenKind} (hkind : joins kind = true) (h : ChainEnds text kind) :
      Point text nameChain fun u => (linkedName >>= fun _ => afterLink call (some budget)).run u
  /-- In a chain of names, after one of its names. -/
  | linked (budget : Nat) (h : ChainEnds text .identifier) :
      Point text nameChain fun u => (afterLink call (some budget)).run u
  /-- After a list in parentheses. -/
  | listed (budget : Nat) :
      Point text containment fun u => (goOn startsContainment (container call) (some budget)).run u

/-- `Frame call rule sub test after`: what `rule` does after its call of `sub` is `after`, and it
goes on there only with a token that `test` accepts. -/
inductive Frame : Rule → Rule → (Cursor → Bool) → (Located → Located) → Prop where
  | question : Frame conditional coalescing (fun c => c.isKind .question) fun o =>
      (o.andThen fun _ => choice call).leave
  | alternative : Frame conditional conditional (fun _ => false) fun o => o.leave
  | coalesce : Frame coalescing projection (fun c => c.isKind .coalesce) fun o =>
      o.andThen fun _ => fallback call
  | arrow : Frame projection disjunction (fun c => c.isKind .arrow) fun o =>
      o.andThen fun _ => Rule.arrow call
  | operators {rule sub : Rule} {isOperator : Cursor → Bool} (budget : Option Nat)
      (h : rule.operators? = some (sub, isOperator)) : Frame rule sub isOperator fun o =>
      o.andThen fun _ => goOn isOperator (do advance; call sub) budget
  | container {sub : Rule} (budget : Option Nat) (h : sub = bitwise ∨ sub = operand) :
      Frame containment sub startsContainment fun o =>
      o.andThen fun _ => goOn startsContainment (container call) budget
  | unary {sub : Rule} (h : sub = unary ∨ sub = operand) :
      Frame unary sub (fun _ => false) fun o => o.leave
  | attached {sub : Rule} (budget : Option Nat)
      (h : sub = primary ∨ sub = member ∨ sub = elementAccess) :
      Frame operand sub isAttached fun o =>
      (o.andThen fun _ => goOn isAttached (attachment call) budget).andThen fun _ => closeOperand
  | chain : Frame member nameChain (fun c => c.isKind .openParen) fun o =>
      o.andThen fun _ => onlyIf (fun c => c.isKind .openParen) (call argumentList)
  | last {rule sub : Rule} (h : rule.endsWith sub = true) : Frame rule sub (fun _ => false) id

end

/-- What may become of a rule that has come to the edge at `u`: something is left at a point of it,
or after one of its calls. -/
inductive Ends (parsing : Parsing) (text : List Char) (u : Walk (List Nat)) :
    Nat → Rule → Located → Prop where
  | point {budget : Nat} {rule : Rule} {rest : Walk (List Nat) → Located}
      (h : Point parsing (run parsing budget) text rule rest) :
      Ends parsing text u (budget + 1) rule (rest u)
  | within {budget : Nat} {rule sub : Rule} {test : Cursor → Bool} {after : Located → Located}
      {o : Located} (h : Frame (run parsing budget) rule sub test after)
      (ho : Ends parsing text u budget sub o) : Ends parsing text u (budget + 1) rule (after o)

/-! ## §3. Frames that do nothing. -/

variable {parsing : Parsing} {call : Rule → Locator Unit} {rule sub : Rule} {test : Cursor → Bool}
  {after : Located → Located} {w : Walk (List Nat)}

theorem run_goOn (test : Cursor → Bool) (step : Locator Unit) (budget : Option Nat)
    (w : Walk (List Nat)) :
    (goOn test step budget).run w =
      (repeatUpTo (whileStep test step) (budget.getD (w.cursor.size + 2)) ()).run w := by
  cases budget <;> rfl

/-- A round where the test fails stops the loop and takes nothing. -/
theorem run_whileStep_of_not (step : Locator Unit) (h : test w.cursor = false) :
    (whileStep test step ()).run w = .ok (false, ()) w := by
  show (if test w.cursor then (do step; pure (true, ())) else pure (false, ()) :
    Locator (Bool × Unit)).run w = _
  rw [h]
  rfl

/-- A round where the test holds makes the step and asks for another one. -/
theorem run_whileStep_of_test (step : Locator Unit) (h : test w.cursor = true) :
    (whileStep test step ()).run w = (step >>= fun _ => pure (true, ())).run w := by
  show (if test w.cursor then (do step; pure (true, ())) else pure (false, ()) :
    Locator (Bool × Unit)).run w = _
  rw [h]
  rfl

/-- A loop of no round. -/
theorem run_loop_of_not (step : Locator Unit) (k : Nat) (h : test w.cursor = false) :
    (repeatUpTo (whileStep test step) (k + 1) ()).run w = .ok () w := by
  show ((whileStep test step ()).run w).andThen _ = _
  rw [run_whileStep_of_not step h]
  rfl

/-- A loop that has more to do makes a step and goes on. -/
theorem run_loop_of_test (step : Locator Unit) (k : Nat) (h : test w.cursor = true) :
    (repeatUpTo (whileStep test step) (k + 1) ()).run w =
      (step >>= fun _ => repeatUpTo (whileStep test step) k ()).run w := by
  show ((whileStep test step ()).run w).andThen _ = _
  rw [run_whileStep_of_test step h, run_bind, Walk.Outcome.andThen_assoc]
  rfl

/-- A loop of one round. -/
theorem run_loop_once {step : Locator Unit} {u : Walk (List Nat)} (k : Nat) (h : test w.cursor = true)
    (hstep : step.run w = .ok () u) (hu : test u.cursor = false) :
    (repeatUpTo (whileStep test step) (k + 2) ()).run w = .ok () u := by
  rw [run_loop_of_test step (k + 1) h, run_bind_of_ok hstep]
  exact run_loop_of_not step k hu

theorem run_repeatWhile_of_not (step : Locator Unit) (h : test w.cursor = false) :
    (repeatWhile test step).run w = .ok () w :=
  run_loop_of_not step _ h

/-- A loop that has no more to do is over, unless it is out of budget. -/
theorem run_goOn_of_not (step : Locator Unit) (budget : Option Nat) (h : test w.cursor = false) :
    ((goOn test step budget).run w).TooDeep ∨ (goOn test step budget).run w = .ok () w := by
  cases budget with
  | none => exact .inr (run_loop_of_not step _ h)
  | some n =>
    cases n with
    | zero => exact .inl ⟨_, w, rfl⟩
    | succ n => exact .inr (run_loop_of_not step n h)

theorem run_onlyIf_of_not {x : Locator Unit} (h : test w.cursor = false) :
    (onlyIf test x).run w = .ok () w := by
  rw [run_onlyIf, h]
  rfl

/-- The symbols that a frame may go on at, but for what is attached to an operand. -/
def frameKinds : List TokenKind := [.question, .coalesce, .arrow, .openParen] ++ operatorKinds

/-- **What a frame does not go on at.**  Beside the symbols only containments and products know words. -/
theorem Frame.test_of_not (h : Frame call rule sub test after) {c : Cursor}
    (hkind : c.current.kind ∉ frameKinds) (hmod : c.isWord "mod" = false)
    (hcontains : rule = containment → startsContainment c = false)
    (hattached : rule = operand → isAttached c = false) : test c = false := by
  have hne : ∀ {kind : TokenKind}, kind ∈ frameKinds → c.isKind kind = false := fun hmem =>
    beq_eq_false_iff_ne.2 fun heq => hkind (heq ▸ hmem)
  cases h with
  | question | coalesce | arrow | chain => exact hne (by decide)
  | alternative | unary | last => rfl
  | operators _ h =>
    exact operators?_of_not h (fun hmem => hkind (List.mem_append_right _ hmem)) hmod
  | container => exact hcontains rfl
  | attached => exact hattached rfl

/-- At the end of a text no test succeeds. -/
theorem Frame.test_finish (h : Frame call rule sub test after) {c : Cursor}
    (hc : c.current.isFinish = true) : test c = false := by
  have hkind : c.current.kind = .finish := Token.isFinish_iff.1 hc
  refine h.test_of_not (by rw [hkind]; decide) ?_ (fun _ => ?_) fun _ => ?_ <;>
    simp [Cursor.isWord, Cursor.isAny, startsContainment, Cursor.isOneOf, isAttached, hkind]

/-- Two walks at the same place with the same stack. -/
def SamePlace (w v : Walk (List Nat)) : Prop := v.cursor = w.cursor ∧ v.held = w.held

/-- The walk with its innermost operand closed, unless the text is over. -/
def closed (w : Walk (List Nat)) : Walk (List Nat) :=
  { w with held := if w.cursor.current.isFinish then w.held else w.held.tail }

/-- **A frame whose test fails does nothing**, save that an operand is closed, unless the text is
over. -/
theorem Frame.pass (h : Frame call rule sub test after) (hw : test w.cursor = false) :
    (after (.ok () w)).TooDeep ∨ ∃ v, after (.ok () w) = .ok () v ∧ v.cursor = w.cursor ∧
      (rule ≠ operand ∨ w.cursor.current.isFinish = true → v.held = w.held) := by
  -- A loop of no round leaves the walk as it is.
  have hloop : ∀ {step : Locator Unit} {budget : Option Nat},
      ((goOn test step budget).run w).TooDeep ∨ ∃ v, (goOn test step budget).run w = .ok () v ∧
        v.cursor = w.cursor ∧ v.held = w.held := fun {step} {budget} => by
    rcases run_goOn_of_not step budget hw with hdeep | hok
    · exact .inl hdeep
    · exact .inr ⟨w, hok, rfl, rfl⟩
  -- What only asks for a token changes nothing; an operand closes itself at the end of a text.
  cases h with
  | question =>
    refine .inr ⟨w.shallower, ?_, rfl, fun _ => rfl⟩
    show ((onlyIf _ _).run w).leave = _
    rw [run_onlyIf_of_not hw]
    rfl
  | alternative => exact .inr ⟨w.shallower, rfl, rfl, fun _ => rfl⟩
  | unary => exact .inr ⟨w.shallower, rfl, rfl, fun _ => rfl⟩
  | last => exact .inr ⟨w, rfl, rfl, fun _ => rfl⟩
  | coalesce => exact .inr ⟨w, run_onlyIf_of_not hw, rfl, fun _ => rfl⟩
  | arrow => exact .inr ⟨w, run_onlyIf_of_not hw, rfl, fun _ => rfl⟩
  | chain => exact .inr ⟨w, run_onlyIf_of_not hw, rfl, fun _ => rfl⟩
  | operators budget _ | container budget _ =>
    rcases hloop with hdeep | ⟨v, hv, hcursor, hheld⟩
    · exact .inl hdeep
    · exact .inr ⟨v, hv, hcursor, fun _ => hheld⟩
  | attached budget _ =>
    rcases run_goOn_of_not (attachment call) budget hw with hdeep | hok
    · exact .inl (hdeep.andThen _)
    · refine .inr ⟨closed w, ?_, rfl, ?_⟩
      · show (((goOn isAttached (attachment call) budget).run w).andThen _) = _
        rw [hok]
        rfl
      · rintro (h | h)
        · exact absurd rfl h
        · exact if_pos h

/-- A frame changes nothing about a failure but the depth. -/
theorem Frame.error (h : Frame call rule sub test after) (failure : Failure) :
    ∃ v, after (.error failure w) = .error failure v ∧ SamePlace w v := by
  cases h with
  | question | alternative | unary => exact ⟨w.shallower, rfl, rfl, rfl⟩
  | _ => exact ⟨w, rfl, rfl, rfl⟩

/-- A frame does not help a walk that is too deep. -/
theorem Frame.tooDeep (h : Frame call rule sub test after) {o : Located} (ho : o.TooDeep) :
    (after o).TooDeep := by
  obtain ⟨position, w, rfl⟩ := ho
  obtain ⟨v, hv, -⟩ := h.error (w := w) (.fault ⟨.tooDeep, position⟩)
  exact ⟨position, v, hv⟩

end Rule

end TypeAhead.Fragment
