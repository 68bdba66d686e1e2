/-
  TypeAhead.Proofs.Fragment.InStep — EVERY RULE KEEPS TWO WALKS IN STEP.

  Rule by rule, two walks of paired texts stay in step until the first text is
  over.  If the rule succeeds there, what becomes of it in the second text is one
  of the things that `Ends` collects.

      locked_body    the bodies keep the walks in step if their calls do
      inStep_run     every rule keeps them in step
-/
import TypeAhead.Proofs.Fragment.Quiet

namespace TypeAhead.Fragment

open Walker

variable {α β : Type}

namespace Pairing

variable {p : Pairing} {w v : Walk (List Nat)}
  {L : α → Walk (List Nat) → Walk.Outcome (List Nat) α → Prop}
  {K : α → Walk (List Nat) → Walk.Outcome (List Nat) α → Prop}
  {M N : β → Walk (List Nat) → Walk.Outcome (List Nat) β → Prop}
  {o q : Walk.Outcome (List Nat) α} {f g : α → Locator β}

/-! ## §1. Past the edge. -/

/-- What matters of the first walk is where it was when it came to the end. -/
theorem Parted.of_samePlace {u : Walk (List Nat)} (h : p.Parted w u) (hv : Rule.SamePlace w v) :
    p.Parted v u :=
  ⟨hv.1 ▸ h.cross, hv.2 ▸ h.stacked⟩

/-- Nothing comes after the edge for the first walk. -/
theorem Locked.andThen_of_quiet (h : p.Locked (p.At K) o q)
    (hok : ∀ a w v, o = .ok a w → p.Paired w v → p.Locked (p.At N) ((f a).run w) ((g a).run v))
    (hquiet : ∀ a, Quiet (f a))
    (hN : ∀ a w u, o = .ok a w → p.Parted w u → K a u q → ∀ b w', (f a).run w = .ok b w' →
      N b u (q.andThen g)) :
    p.Locked (p.At N) (o.andThen f) (q.andThen g) := by
  refine h.andThen hok fun a w ho _ ⟨u, hparted, hK⟩ b w' hrun => ?_
  exact ⟨u, hparted.of_samePlace (hquiet a w hparted.finish b w' hrun), hN a w u ho hparted hK b w' hrun⟩

/-- The first text is over; nothing is said of the second walk. -/
abbrev Over (p : Pairing) : α → Walk (List Nat) → Walk.Outcome (List Nat) α → Prop :=
  fun _ w _ => p.ends ∧ w.cursor.current.isFinish = true

/-- How a rule ended is forgotten, but not that it came to the end of its text. -/
theorem Locked.over (h : p.Locked (p.At K) o q) : p.Locked p.Over o q :=
  h.imp fun _ _ _ ⟨_, hparted, _⟩ => ⟨p.ends_of_cross hparted.cross, hparted.finish⟩

/-- The first walk does not succeed with what comes after the edge. -/
theorem Locked.andThen_of_never (h : p.Locked p.Over o q)
    (hok : ∀ a w v, o = .ok a w → p.Paired w v → p.Locked M ((f a).run w) ((g a).run v))
    (hnever : ∀ a, Never (f a)) : p.Locked M (o.andThen f) (q.andThen g) :=
  h.andThen hok fun a w _ _ hover b w' hrun => absurd hrun (hnever a w hover.2 b w')

/-- After a rule that came to the end, one that does nothing there leaves the walks parted. -/
theorem Locked.andThen_of_over (h : p.Locked p.Over o q)
    (hok : ∀ a w v, o = .ok a w → p.Paired w v → p.Locked p.Over ((f a).run w) ((g a).run v))
    (hquiet : ∀ a, Quiet (f a)) : p.Locked p.Over (o.andThen f) (q.andThen g) := by
  refine h.andThen hok fun a w _ _ ⟨hends, hfinish⟩ b w' hrun => ⟨hends, ?_⟩
  rw [(hquiet a w hfinish b w' hrun).1]
  exact hfinish

/-- A loop goes on after a step that was made as its test asked for it. -/
theorem whileStep_eq_ok {test : Cursor → Bool} {step : Locator Unit} {b : Unit}
    (h : (whileStep test step ()).run w = .ok (true, b) v) :
    test w.cursor = true ∧ step.run w = .ok () v := by
  have h : (if test w.cursor then (do step; pure (true, ())) else pure (false, ()) :
    Locator (Bool × Unit)).run w = .ok (true, b) v := h
  -- Where the test fails the round does not go on.
  cases ht : test w.cursor with
  | false =>
    rw [ht] at h
    cases h
  | true =>
    rw [ht] at h
    have h : (step.run w).andThen (fun _ => pure (true, ())) = .ok (true, b) v := h
    cases hstep : step.run w with
    | ok _ u =>
      rw [hstep] at h
      cases h
      exact ⟨rfl, rfl⟩
    | error failure u =>
      rw [hstep] at h
      cases h

/-- Loops in step.  `J` is an invariant of the first walk; where the first text can be over within
a step, the test has to fail there. -/
theorem locked_goOn {test : Cursor → Bool} {step step' : Locator Unit}
    {J : Walk (List Nat) → Prop} {S R : Unit → Walk (List Nat) → Located → Prop}
    (htest : ReadsToken test)
    (hstep : ∀ w v, J w → p.Paired w v → test w.cursor = true →
      p.Locked S (step.run w) (step'.run v))
    (hJ : ∀ w w', J w → test w.cursor = true → step.run w = .ok () w' → J w')
    (hS : ∀ w o, S () w o → w.cursor.current.isFinish = true ∧
      ∀ c, c.current.isFinish = true → test c = false)
    (hR : ∀ w o w' budget, S () w o → Rule.SamePlace w w' →
      R () w' (o.andThen fun _ => goOn test step' (some budget)))
    (budget budget' : Option Nat) (hw : J w) (h : p.Paired w v) :
    p.Locked R ((goOn test step budget).run w) ((goOn test step' budget').run v) := by
  -- One step of the loop, with its answer whether to go on.
  have honce : ∀ w v, J w → p.Paired w v →
      p.Locked (fun (next : Bool × Unit) w o => ∃ o₁, S () w o₁ ∧ next.1 = true ∧
        o = o₁.andThen fun _ => pure (true, ()))
        ((whileStep test step ()).run w) ((whileStep test step' ()).run v) := by
    intro w v hw h
    show p.Locked _ ((if test w.cursor then (do step; pure (true, ())) else pure (false, ()) :
      Locator (Bool × Unit)).run w) ((if test v.cursor then (do step'; pure (true, ()))
      else pure (false, ()) : Locator (Bool × Unit)).run v)
    rw [h.test htest]
    cases ht : test w.cursor with
    | false => exact .ok h
    | true =>
      refine (hstep w v hw h ht).andThen (fun _ _ _ _ h' => .ok h') ?_
      intro _ w _ _ hS b w' hrun
      cases hrun
      exact ⟨_, hS, rfl, rfl⟩
  rw [Rule.run_goOn, Rule.run_goOn]
  -- The loop by rounds: `J` is kept by each that goes on.
  refine locked_repeatUpTo (J := fun _ w => J w) (fun _ w v => honce w v) ?_ ?_ _ _ hw h
  · intro _ w _ w' hw hrun
    obtain ⟨ht, hrun⟩ := whileStep_eq_ok hrun
    exact hJ w w' hw ht hrun
  · rintro ⟨again, _⟩ w o k k' _ ⟨o₁, hS₁, hagain, rfl⟩ b w' hrun
    cases hagain
    obtain ⟨hfinish, htest⟩ := hS w o₁ hS₁
    rw [Walk.Outcome.andThen_assoc]
    exact hR w o₁ w' k' hS₁ (quiet_goOn step (some k) htest w hfinish b w' hrun)

end Pairing

namespace Rule

variable {parsing : Parsing} {p : Pairing} {budget : Nat} {call : Rule → Locator Unit}
  {w v : Walk (List Nat)}

/-! ## §2. Calls. -/

/-- A chain of names is entered after a name. -/
def Enters (text : List Char) (r : Rule) (c : Cursor) : Prop :=
  r = nameChain → ∃ past, Stands text (.identifier :: past) c

/-- At the edge the rule of the second walk goes on as `Ends` says. -/
abbrev EndsAt (p : Pairing) (parsing : Parsing) (budget : Nat) (r : Rule) :
    Unit → Walk (List Nat) → Located → Prop :=
  p.At fun _ u o => Ends parsing p.text u budget r o

/-- The calls of two bodies keep the walks in step. -/
structure InStep (p : Pairing) (parsing : Parsing) (budget : Nat) (call : Rule → Locator Unit) :
    Prop where
  locked : ∀ {r w v}, r ≠ argument → r ≠ arguments → p.Paired w v → Enters p.text r w.cursor →
    p.Locked (EndsAt p parsing budget r) ((call r).run w) ((run parsing budget r).run v)
  /-- Arguments do not end a text, as a bracket has to follow them. -/
  arguments : ∀ {r w v}, r = argument ∨ r = arguments → p.Paired w v →
    p.Locked p.Over ((call r).run w) ((run parsing budget r).run v)
  never : ∀ {r}, needsToken r → Never (call r)
  restores : ∀ r, Restores (call r)

/-- A call from a token that both walks are on. -/
theorem InStep.enter (H : InStep p parsing budget call) {r : Rule} (h : p.Paired w v)
    (hr : r ≠ argument ∧ r ≠ Rule.arguments ∧ r ≠ nameChain) :
    p.Locked (EndsAt p parsing budget r) ((call r).run w) ((run parsing budget r).run v) :=
  H.locked hr.1 hr.2.1 h fun hchain => absurd hchain hr.2.2

/-- A call after a token that was read. -/
theorem InStep.advance (H : InStep p parsing budget call) {r : Rule} (h : p.Paired w v)
    (hr : r ≠ argument ∧ r ≠ Rule.arguments ∧ needsToken r) :
    p.Locked (EndsAt p parsing budget r) ((do advance; call r : Locator Unit).run w)
      ((do advance; run parsing budget r : Locator Unit).run v) :=
  (Pairing.locked_advance h).over.andThen_of_never
    (fun _ _ _ _ h' => H.enter h' ⟨hr.1, hr.2.1, hr.2.2.1⟩) fun _ => H.never hr.2.2

/-! ## §3. Operators. -/

/-- What tells the operators of a rule. -/
theorem operators?_test {rule sub : Rule} {test : Cursor → Bool}
    (h : rule.operators? = some (sub, test)) :
    ReadsToken test ∧ ∀ c, c.current.isFinish = true → test c = false := by
  have hreads : ReadsToken test := by
    cases rule <;> cases h
    case disjunction | conjunction => exact readsToken_isKind _
    case comparison => exact fun c d hkind _ => by simp only [hkind]
    case product => exact fun c d hkind htext => by simp only [Cursor.isAny, Cursor.isWord, hkind, htext]
    all_goals exact readsToken_isAny _
  refine ⟨hreads, fun c hc => ?_⟩
  have hkind : c.current.kind = .finish := Token.isFinish_iff.1 hc
  exact operators?_of_not h (by rw [hkind]; decide) (isWord_finish hc)

/-- Operators stand between operands, which are neither arguments nor names. -/
theorem operators?_sub {rule sub : Rule} {test : Cursor → Bool}
    (h : rule.operators? = some (sub, test)) :
    sub ≠ argument ∧ sub ≠ arguments ∧ needsToken sub := by
  cases rule <;> cases h <;> exact ⟨nofun, nofun, nofun, nofun⟩

/-- The operators after the first operand. -/
theorem locked_operatorLoop (H : InStep p parsing budget call) {rule sub : Rule}
    {test : Cursor → Bool} (hoperators : rule.operators? = some (sub, test)) (h : p.Paired w v)
    (k k' : Option Nat) :
    p.Locked (EndsAt p parsing (budget + 1) rule) ((goOn test (do advance; call sub) k).run w)
      ((goOn test (do advance; run parsing budget sub) k').run v) := by
  obtain ⟨htest, hfinish⟩ := operators?_test hoperators
  refine Pairing.locked_goOn (J := fun _ => True) (S := EndsAt p parsing budget sub) htest
    (fun w v _ h _ => H.advance h (operators?_sub hoperators)) (fun _ _ _ _ _ => trivial)
    (fun w o ⟨_, hparted, _⟩ => ⟨hparted.finish, hfinish⟩) ?_ k k' trivial h
  rintro w o w' k ⟨u, hparted, hu⟩ hsame
  exact ⟨u, hparted.of_samePlace hsame, .within (.operators (some k) hoperators) hu⟩

/-- Operators of one precedence: the text may be over after each of the operands. -/
theorem locked_operators (H : InStep p parsing budget call) {rule sub : Rule}
    {test : Cursor → Bool} (hoperators : rule.operators? = some (sub, test)) (h : p.Paired w v) :
    p.Locked (EndsAt p parsing (budget + 1) rule) ((body parsing call rule).run w)
      ((body parsing (run parsing budget) rule).run v) := by
  have hsub := operators?_sub hoperators
  rw [body_operators hoperators, body_operators hoperators]
  exact (H.enter h ⟨hsub.1, hsub.2.1, hsub.2.2.1⟩).andThen_of_quiet
    (fun _ _ _ _ h => locked_operatorLoop H hoperators h none none)
    (fun _ => quiet_goOn (do advance; call sub) none (operators?_test hoperators).2)
    fun _ _ u _ _ hu _ _ _ => .within (.operators none hoperators) hu

/-! ## §4. Choices and containments. -/

/-- The two other operands of a choice; the text is over after the last one. -/
theorem locked_choice (H : InStep p parsing budget call) (h : p.Paired w v) :
    p.Locked (EndsAt p parsing budget conditional) ((choice call).run w)
      ((choice (run parsing budget)).run v) := by
  refine Pairing.locked_onlyIf h (readsToken_isKind _) fun _ => ?_
  refine (Pairing.locked_advance h).over.andThen_of_never ?_
    fun _ => never_bind_left (H.never (by decide)) _
  intro _ w v _ h
  refine (H.enter (r := conditional) h (by decide)).over.andThen_of_never ?_
    fun _ => never_bind_left (never_expect (by decide)) _
  intro _ w v _ h
  exact (Pairing.locked_expect h).over.andThen_of_never
    (fun _ _ _ _ h => H.enter (r := conditional) h (by decide)) fun _ => H.never (by decide)

/-- At the end of a text no question mark is there. -/
theorem quiet_choice (call : Rule → Locator Unit) : Quiet (choice call) :=
  quiet_onlyIf _ fun _ hc => isKind_finish (by decide) hc

/-- A conditional ends with its condition or with its last branch. -/
theorem locked_conditional (H : InStep p parsing budget call) (h : p.Paired w v) :
    p.Locked (EndsAt p parsing (budget + 1) conditional) ((body parsing call conditional).run w)
      ((body parsing (run parsing budget) conditional).run v) := by
  have hdeeper : p.Paired w.deeper v.deeper := ⟨h.alike, h.stacked⟩
  -- The text is over after the first operand or after the last one.
  refine Pairing.locked_nested (L := p.At fun _ u o =>
      (∃ o₁, Ends parsing p.text u budget coalescing o₁ ∧
        o = o₁.andThen fun _ => choice (run parsing budget)) ∨
      Ends parsing p.text u budget conditional o) ?_ ?_
  · exact (H.enter (r := coalescing) hdeeper (by decide)).andThen_of_quiet
      (fun _ _ _ _ h => (locked_choice H h).imp
        fun _ _ _ ⟨u, hparted, hu⟩ => ⟨u, hparted, Or.inr hu⟩)
      (fun _ => quiet_choice call) fun _ _ u _ _ hu _ _ _ => Or.inl ⟨_, hu, rfl⟩
  · rintro _ w ⟨u, hparted, ⟨o₁, hu, ho⟩ | hu⟩
    · have hquestion := Ends.within Frame.question hu
      rw [ho]
      exact ⟨u, ⟨hparted.cross, hparted.stacked⟩, hquestion⟩
    · exact ⟨u, ⟨hparted.cross, hparted.stacked⟩, .within .alternative hu⟩

/-- What stands behind `??` is the last thing in a coalescing. -/
theorem locked_fallback (H : InStep p parsing budget call) (h : p.Paired w v) :
    p.Locked (EndsAt p parsing (budget + 1) coalescing) ((fallback call).run w)
      ((fallback (run parsing budget)).run v) := by
  refine Pairing.locked_onlyIf h (readsToken_isKind _) fun _ => ?_
  exact (H.advance (r := conditional) h (by decide)).imp
    fun _ _ _ ⟨u, hparted, hu⟩ => ⟨u, hparted, Ends.within (Frame.last rfl) hu⟩

/-- A coalescing ends with its first operand or with the one behind `??`. -/
theorem locked_coalescing (H : InStep p parsing budget call) (h : p.Paired w v) :
    p.Locked (EndsAt p parsing (budget + 1) coalescing) ((body parsing call coalescing).run w)
      ((body parsing (run parsing budget) coalescing).run v) :=
  (H.enter (r := projection) h (by decide)).andThen_of_quiet
    (fun _ _ _ _ h => locked_fallback H h)
    (fun _ => quiet_onlyIf _ fun c hc => isKind_finish (by decide) hc)
    fun _ _ u _ _ hu _ _ _ => Ends.within Frame.coalesce hu

/-- After an arrow a parenthesis has to stand, so the text is over before the arrow. -/
theorem locked_arrow (H : InStep p parsing budget call) (h : p.Paired w v) :
    p.Locked (fun _ _ _ => False) ((arrow call).run w) ((arrow (run parsing budget)).run v) := by
  refine Pairing.locked_onlyIf h (readsToken_isKind _) fun _ => ?_
  have hrequire : Never (require .openParen .openParenExpected : Locator Unit) :=
    never_demand fun _ hc => isKind_finish (by decide) hc
  refine (Pairing.locked_advance h).over.andThen_of_never ?_
    fun _ => never_bind_right (quiet_onlyIf _ fun c hc => isAny_finish (by decide) hc)
      fun _ => hrequire
  intro _ w v _ h
  refine Pairing.Locked.andThen_of_never ?_
    (fun _ _ _ _ h => Pairing.locked_demand h (readsToken_isKind _)) fun _ => hrequire
  exact Pairing.locked_onlyIf h (readsToken_isAny _) fun _ =>
    (H.enter (r := conditional) h (by decide)).over

/-- A projection ends with its first operand, as nothing ends after an arrow. -/
theorem locked_projection (H : InStep p parsing budget call) (h : p.Paired w v) :
    p.Locked (EndsAt p parsing (budget + 1) projection) ((body parsing call projection).run w)
      ((body parsing (run parsing budget) projection).run v) :=
  (H.enter (r := disjunction) h (by decide)).andThen_of_quiet
    (fun _ _ _ _ h => (locked_arrow H h).imp fun _ _ _ hfalse => hfalse.elim)
    (fun _ => quiet_onlyIf _ fun c hc => isKind_finish (by decide) hc)
    fun _ _ u _ _ hu _ _ _ => Ends.within Frame.arrow hu

/-- What is known of the operator of a containment is its kind and its wording. -/
theorem locked_containmentOperator {operator operator' : Token} (hkind : operator'.kind = operator.kind)
    (htext : operator'.text = operator.text) (h : p.Paired w v) :
    p.Locked (p.At Pairing.Here) ((containmentOperator operator).run w)
      ((containmentOperator operator').run v) := by
  refine Pairing.Locked.andThen_inside ?_ fun _ _ _ _ h => Pairing.locked_advance h
  rw [run_onlyIf, run_onlyIf, hkind, htext]
  split
  · refine (Pairing.locked_advance h).over.andThen_of_never ?_
      fun _ => never_ifLook (fun _ => isWord_finish) ?_
    · intro _ w v _ h
      exact Pairing.locked_ifLook h (readsToken_isWord "in") (fun _ => .ok h)
        fun _ => .error h.stacked rfl
    · intro w _ a v hrun
      cases hrun
  · exact .ok h

/-- An element of a list has a comma or a parenthesis after it, so the text is not over there. -/
theorem locked_listElement (H : InStep p parsing budget call) {operator operator' : Token}
    (h : p.Paired w v) :
    p.Locked (fun _ _ _ => False) ((listElement call operator).run w)
      ((listElement (run parsing budget) operator').run v) := by
  refine (Pairing.locked_advance h).over.andThen_of_never ?_
    fun _ => never_bind_left (H.never (by decide)) _
  intro _ w v _ h
  refine (H.enter (r := unary) h (by decide)).over.andThen_of_never ?_
    ?_
  · intro _ w v _ h
    exact Pairing.locked_ifLook h (readsToken_isKind .finish) (fun _ => .error h.stacked rfl)
      fun _ => .ok h
  · exact fun _ => never_ifLook_of_test (fun _ hc => hc) (never_failAt _ _)

/-- The text is over after the operand of a containment or after its list. -/
theorem locked_container (H : InStep p parsing budget call) (h : p.Paired w v) :
    p.Locked (p.At fun _ u o => Ends parsing p.text u budget operand o ∨ o = .ok () u)
      ((container call).run w) ((container (run parsing budget)).run v) := by
  refine Pairing.Locked.andThen_of_never (o := (containmentOperator w.cursor.current).run w)
    (q := (containmentOperator v.cursor.current).run v)
    (locked_containmentOperator (p.kind_eq h.alike) (p.text_eq h.alike) h).over ?_ ?_
  · intro _ w' v' _ h
    refine Pairing.locked_kind h fun k => ?_
    split
    -- A list is over with its parenthesis, so the edge is behind that and not within it.
    · refine Pairing.Locked.andThen_inside
        (o := (goOn (fun c => !c.isKind .closeParen) (listElement call w.cursor.current) none).run w')
        (q := (goOn (fun c => !c.isKind .closeParen)
          (listElement (run parsing budget) v.cursor.current) none).run v') ?_ ?_
      · exact Pairing.locked_goOn (J := fun _ => True) (S := fun _ _ _ => False)
          (fun c d hkind htext => by simp only [readsToken_isKind _ c d hkind htext])
          (fun w v _ h _ => locked_listElement H h) (fun _ _ _ _ _ => trivial)
          (fun _ _ hfalse => hfalse.elim) (fun _ _ _ _ hfalse => hfalse.elim) none none trivial h
      · exact fun _ _ _ _ h => (Pairing.locked_advance h).imp
          fun _ _ _ ⟨u, hparted, hu⟩ => ⟨u, hparted, Or.inr hu⟩
    · exact (H.enter (r := operand) h (by decide)).imp
        fun _ _ _ ⟨u, hparted, hu⟩ => ⟨u, hparted, Or.inl hu⟩
    · exact .error h.stacked rfl
  -- The end of a text is neither a parenthesis nor a word.
  · exact fun _ => never_kind (never_failAt _ _)

theorem readsToken_startsContainment : ReadsToken startsContainment := readsToken_isOneOf _ _

/-- The end of a text is no containment. -/
theorem startsContainment_finish {c : Cursor} (hc : c.current.isFinish = true) :
    startsContainment c = false := by
  have hkind : c.current.kind = .finish := Token.isFinish_iff.1 hc
  simp [startsContainment, Cursor.isOneOf, hkind]

/-- A containment ends with its left operand, with its right one or with its list. -/
theorem locked_containment (H : InStep p parsing budget call) (h : p.Paired w v) :
    p.Locked (EndsAt p parsing (budget + 1) containment) ((body parsing call containment).run w)
      ((body parsing (run parsing budget) containment).run v) := by
  refine (H.enter (r := bitwise) h (by decide)).andThen_of_quiet ?_
    (fun _ => quiet_goOn (container call) none fun _ => startsContainment_finish)
    fun _ _ u _ _ hu _ _ _ => Ends.within (Frame.container none (.inl rfl)) hu
  intro _ w v _ h
  refine Pairing.locked_goOn (J := fun _ => True) readsToken_startsContainment
    (fun w v _ h _ => locked_container H h) (fun _ _ _ _ _ => trivial)
    (fun _ _ ⟨_, hparted, _⟩ => ⟨hparted.finish, fun _ => startsContainment_finish⟩)
    ?_ none none trivial h
  rintro w o w' k ⟨u, hparted, hu | rfl⟩ hsame
  · exact ⟨u, hparted.of_samePlace hsame, Ends.within (Frame.container (some k) (.inr rfl)) hu⟩
  · exact ⟨u, hparted.of_samePlace hsame, Ends.point (Point.listed k)⟩

/-! ## §5. Operands. -/

/-- A number takes the minus before it in both texts. -/
theorem paired_negated (h : p.Paired w v) {operator operator' : Token}
    (hplace : p.place operator.start operator'.start)
    (hstart : operator.start ≤ w.cursor.current.start) :
    p.Paired { w with cursor := { w.cursor with current := w.cursor.current.negated operator } }
      { v with cursor := { v.cursor with current := v.cursor.current.negated operator' } } :=
  ⟨p.replace h.alike rfl hstart (p.kind_eq h.alike)
    (congrArg ("-" ++ ·) (p.text_eq h.alike)) hplace, h.stacked⟩

/-- Going on leads to a token that starts later. -/
theorem start_lt_of_advance {text : List Char} {past : List TokenKind}
    (hstands : Stands text past w.cursor) (hw : w.cursor.current.isFinish = false) {a : Unit}
    (hrun : advance.run w = .ok a v) :
    Reaches text (w.cursor.current.kind :: past) v.cursor ∧
      w.cursor.current.start < v.cursor.current.start := by
  obtain ⟨c, hnext, rfl⟩ := eq_ok_of_advance hrun
  exact hstands.next hw hnext

/-- After an operator of one operand something has to follow. -/
theorem never_operated (hunary : Never (call unary)) (operator : Token) :
    Never (operated call operator) := by
  intro w hw a v hrun
  have hkind : w.cursor.current.kind = .finish := Token.isFinish_iff.1 hw
  have hrun : (if operator.kind = .minus && w.cursor.current.kind.isNumber then (do
      replace (w.cursor.current.negated operator)
      call operand) else call unary : Locator Unit).run w = .ok a v := hrun
  rw [hkind, show TokenKind.isNumber .finish = false from rfl, Bool.and_false] at hrun
  exact hunary w hw a v hrun

/-- What an operator of one operand applies to ends where the operand does. -/
theorem locked_operated (H : InStep p parsing budget call) {operator operator' : Token}
    (hkind : operator'.kind = operator.kind) (hplace : p.place operator.start operator'.start)
    (hstart : operator.start ≤ w.cursor.current.start) (h : p.Paired w v) :
    p.Locked (p.At fun _ u o => ∃ sub, (sub = unary ∨ sub = operand) ∧
        Ends parsing p.text u budget sub o)
      ((operated call operator).run w) ((operated (run parsing budget) operator').run v) := by
  show p.Locked _ ((if operator.kind = .minus && w.cursor.current.kind.isNumber then (do
      replace (w.cursor.current.negated operator)
      call operand) else call unary : Locator Unit).run w)
    ((if operator'.kind = .minus && v.cursor.current.kind.isNumber then (do
      replace (v.cursor.current.negated operator')
      run parsing budget operand) else run parsing budget unary : Locator Unit).run v)
  rw [hkind, p.kind_eq h.alike]
  split
  · exact (H.enter (r := operand) (paired_negated h hplace hstart) (by decide)).imp
      fun _ _ _ ⟨u, hparted, hu⟩ => ⟨u, hparted, operand, .inr rfl, hu⟩
  · exact (H.enter (r := unary) h (by decide)).imp
      fun _ _ _ ⟨u, hparted, hu⟩ => ⟨u, hparted, unary, .inl rfl, hu⟩

/-- A sign is told by the kind and the wording of its token. -/
theorem readsToken_isSign : ReadsToken isSign := fun c d hkind htext => by
  simp only [isSign, Cursor.isAny, Cursor.isWord, hkind, htext]

/-- An operand with operators before it ends as the operand does. -/
theorem locked_unary (H : InStep p parsing budget call) (h : p.Paired w v) :
    p.Locked (EndsAt p parsing (budget + 1) unary) ((body parsing call unary).run w)
      ((body parsing (run parsing budget) unary).run v) := by
  have hdeeper : p.Paired w.deeper v.deeper := ⟨h.alike, h.stacked⟩
  refine Pairing.locked_nested (L := p.At fun _ u o => ∃ sub, (sub = unary ∨ sub = operand) ∧
    Ends parsing p.text u budget sub o) ?_ ?_
  · refine Pairing.locked_ifLook hdeeper readsToken_isSign (fun hoperator => ?_) fun _ =>
      (H.enter (r := operand) hdeeper (by decide)).imp
        fun _ _ _ ⟨u, hparted, hu⟩ => ⟨u, hparted, operand, .inr rfl, hu⟩
    have hw : w.deeper.cursor.current.isFinish = false := by
      cases hf : w.deeper.cursor.current.isFinish with
      | false => rfl
      | true => exact absurd hoperator (by rw [isSign_finish hf]; decide)
    -- The operand behind a sign starts later than the sign, where it is opened.
    obtain ⟨past, hstands⟩ := p.stands hdeeper.alike
    refine Pairing.Locked.andThen_of_never (o := advance.run w.deeper) (q := advance.run v.deeper)
      (Pairing.locked_advance hdeeper).over ?_ fun _ => never_operated (H.never (by decide)) _
    intro _ w' v' hrun h'
    exact locked_operated H (p.kind_eq hdeeper.alike) (p.start_eq hdeeper.alike)
      (Nat.le_of_lt (start_lt_of_advance hstands hw hrun).2) h'
  · rintro _ w ⟨u, hparted, sub, hsub, hu⟩
    exact ⟨u, ⟨hparted.cross, hparted.stacked⟩, Ends.within (Frame.unary hsub) hu⟩

/-- What is attached ends as a member or as an element does. -/
theorem locked_attachment (H : InStep p parsing budget call) (h : p.Paired w v) :
    p.Locked (p.At fun _ u o => ∃ sub, (sub = member ∨ sub = elementAccess) ∧
        Ends parsing p.text u budget sub o)
      ((attachment call).run w) ((attachment (run parsing budget)).run v) := by
  refine Pairing.locked_kind h fun k => ?_
  split
  · exact (H.advance (r := member) h (by decide)).imp
      fun _ _ _ ⟨u, hparted, hu⟩ => ⟨u, hparted, member, .inl rfl, hu⟩
  · exact .error h.stacked (p.start_eq h.alike)
  · exact (H.enter (r := elementAccess) h (by decide)).imp
      fun _ _ _ ⟨u, hparted, hu⟩ => ⟨u, hparted, elementAccess, .inr rfl, hu⟩

/-- Nothing is attached at the end of a text. -/
theorem isAttached_finish {c : Cursor} (hc : c.current.isFinish = true) : isAttached c = false :=
  isAny_finish (by decide) hc

/-- Both walks open an operand at tokens that correspond. -/
theorem paired_opened (h : p.Paired w v) : p.Paired (opened w) (opened v) := by
  obtain ⟨top, htop, hplaces⟩ := h.stacked
  exact ⟨h.alike, v.cursor.current.start :: top, congrArg (v.cursor.current.start :: ·) htop,
    .cons (p.start_eq h.alike) hplaces⟩

/-- Where the text goes on, both walks close the operand that they have opened. -/
theorem paired_closed {start : Nat} {starts : List Nat} (h : p.Paired w v)
    (hheld : w.cursor.current.isFinish = false → w.held = start :: starts) :
    p.Paired (closed w) (closed v) := by
  have hkind : v.cursor.current.isFinish = w.cursor.current.isFinish := by
    rw [Token.isFinish, Token.isFinish, p.kind_eq h.alike]
  obtain ⟨top, htop, hplaces⟩ := h.stacked
  refine ⟨h.alike, ?_⟩
  simp only [closed, hkind]
  cases hw : w.cursor.current.isFinish with
  | true => exact ⟨top, htop, hplaces⟩
  | false =>
    rw [hheld hw] at hplaces ⊢
    cases hplaces with
    | cons _ hplaces => exact ⟨_, congrArg List.tail htop, hplaces⟩

/-- An operand is opened, read with what is attached to it, and closed. -/
theorem run_operand (call : Rule → Locator Unit) (w : Walk (List Nat)) :
    (body parsing call operand).run w =
      ((do call primary; attached call : Locator Unit) >>= fun _ => closeOperand).run (opened w) := by
  rw [run_bind, run_bind, Walk.Outcome.andThen_assoc]
  rfl

/-- An operand ends with what it is or with the last thing that is attached to it. -/
theorem locked_operand (H : InStep p parsing budget call) (h : p.Paired w v) :
    p.Locked (EndsAt p parsing (budget + 1) operand) ((body parsing call operand).run w)
      ((body parsing (run parsing budget) operand).run v) := by
  have hrestored := restores_bind (H.restores primary) fun _ => restores_attached H.restores
  have hinner : p.Locked (p.At fun _ u o => ∃ sub k o₁,
      (sub = primary ∨ sub = member ∨ sub = elementAccess) ∧ Ends parsing p.text u budget sub o₁ ∧
      o = o₁.andThen fun _ => goOn isAttached (attachment (run parsing budget)) k)
      ((do call primary; attached call : Locator Unit).run (opened w))
      ((do run parsing budget primary; attached (run parsing budget) : Locator Unit).run
        (opened v)) := by
    refine (H.enter (r := primary) (paired_opened h) (by decide)).andThen_of_quiet ?_
      (fun _ => quiet_goOn (attachment call) none fun _ => isAttached_finish)
      fun _ _ u _ _ hu _ _ _ => ⟨primary, none, _, .inl rfl, hu, rfl⟩
    intro _ w v _ h
    refine Pairing.locked_goOn (J := fun _ => True) (readsToken_isAny _)
      (fun w v _ h _ => locked_attachment H h) (fun _ _ _ _ _ => trivial)
      (fun _ _ ⟨_, hparted, _⟩ => ⟨hparted.finish, fun _ => isAttached_finish⟩) ?_ none none trivial h
    rintro w o w' k ⟨u, hparted, sub, hsub, hu⟩ hsame
    exact ⟨u, hparted.of_samePlace hsame, sub, some k, o, .inr hsub, hu, rfl⟩
  -- At the end of the text the first walk leaves the operand open; the second one may go on with
  -- it.
  rw [run_operand, run_operand]
  refine hinner.andThen_of_quiet ?_ (fun _ => quiet_closeOperand) ?_
  · intro _ w' v' hrun h'
    exact .ok (paired_closed h' ((hrestored (opened w)).ok hrun).closed)
  · rintro _ w' u _ _ ⟨sub, k, o₁, hsub, hu, ho⟩ _ _ _
    have hattached := Ends.within (Frame.attached k hsub) hu
    rw [ho]
    exact hattached

/-- An operand by itself ends as the rule does to which it leads. -/
theorem locked_primary (H : InStep p parsing budget call) (h : p.Paired w v) :
    p.Locked (EndsAt p parsing (budget + 1) primary) ((body parsing call primary).run w)
      ((body parsing (run parsing budget) primary).run v) := by
  have hlast : ∀ sub, primary.endsWith sub = true → sub ≠ argument ∧ sub ≠ arguments ∧ sub ≠ nameChain →
      p.Locked (EndsAt p parsing (budget + 1) primary) ((call sub).run w)
        ((run parsing budget sub).run v) := fun sub hsub hr => (H.enter h hr).imp
      fun _ _ _ ⟨u, hparted, hu⟩ => ⟨u, hparted, Ends.within (Frame.last hsub) hu⟩
  have hnumber : p.Locked (EndsAt p parsing (budget + 1) primary) (advance.run w) (advance.run v) := by
    refine (Pairing.locked_advance h).imp fun _ _ o hu => ?_
    obtain ⟨u, hparted, rfl⟩ := hu
    exact ⟨u, hparted, Ends.point (Point.closed rfl)⟩
  -- The kind decides, and it is the same in both walks.
  refine Pairing.locked_kind h fun k => ?_
  split
  · exact Pairing.locked_ifLook h (readsToken_isWord "new")
      (fun _ => hlast creation rfl (by decide)) fun _ => hlast member rfl (by decide)
  · exact hlast text rfl (by decide)
  · exact hnumber
  · exact hnumber
  · exact hlast parenthesized rfl (by decide)
  · exact .error h.stacked rfl

/-! ## §6. Names. -/

/-- What comes after the name of a member; a chain of names comes after a name. -/
theorem locked_afterName (H : InStep p parsing budget call) (h : p.Paired w v)
    (hpast : ∃ past, Stands p.text (.identifier :: past) w.cursor) :
    p.Locked (EndsAt p parsing (budget + 1) member) ((afterName call).run w)
      ((afterName (run parsing budget)).run v) := by
  refine Pairing.locked_ifLook h (readsToken_isKind _) (fun _ => ?_) fun _ => ?_
  · exact (H.advance (r := conditional) h (by decide)).imp
      fun _ _ _ ⟨u, hparted, hu⟩ => ⟨u, hparted, Ends.within (Frame.last rfl) hu⟩
  · refine Pairing.Locked.andThen_of_quiet
      (K := fun _ u o => Ends parsing p.text u budget nameChain o)
      (Pairing.locked_onlyIf h (readsToken_isAny _)
        fun _ => H.locked (by decide) (by decide) h fun _ => hpast) ?_
      (fun _ => quiet_onlyIf _ fun c hc => isKind_finish (by decide) hc)
      fun _ _ u _ _ hu _ _ _ => Ends.within Frame.chain hu
    intro _ w v _ h
    exact Pairing.locked_onlyIf h (readsToken_isKind _) fun _ =>
      (H.enter (r := argumentList) h (by decide)).imp
        fun _ _ _ ⟨u, hparted, hu⟩ => ⟨u, hparted, Ends.within (Frame.last rfl) hu⟩

/-- At the end of a text nothing stands behind a name. -/
theorem quiet_afterName (call : Rule → Locator Unit) : Quiet (afterName call) := by
  intro w hw a v hrun
  have hrun : (if (fun c : Cursor => c.isKind .arrow) w.cursor then (do advance; call conditional)
    else (do
      onlyIf isJoint (call nameChain)
      onlyIf (fun c => c.isKind .openParen) (call argumentList)) : Locator Unit).run w = .ok a v := hrun
  rw [show (fun c : Cursor => c.isKind .arrow) w.cursor = false from
    isKind_finish (by decide) hw] at hrun
  exact quiet_bind (quiet_onlyIf _ fun c hc => isAny_finish (by decide) hc)
    (fun _ => quiet_onlyIf _ fun c hc => isKind_finish (by decide) hc) w hw a v hrun

/-- A member goes past its name. -/
theorem run_body_member (hname : w.cursor.isKind .identifier = true) :
    (body parsing call member).run w = (advance >>= fun _ => afterName call).run
      { w with cursor := w.cursor.reword (plainName w.cursor.current.text) } := by
  have hrequire : (require .identifier .identifierExpected : Locator Unit).run w = .ok () w := by
    rw [require, run_demand, hname]
    rfl
  show ((require .identifier .identifierExpected : Locator Unit).run w).andThen _ = _
  rw [hrequire]
  rfl

/-- A member ends with its name, or with what stands behind the name. -/
theorem locked_member (H : InStep p parsing budget call) (h : p.Paired w v) :
    p.Locked (EndsAt p parsing (budget + 1) member) ((body parsing call member).run w)
      ((body parsing (run parsing budget) member).run v) := by
  cases hname : w.cursor.isKind .identifier with
  -- Without a name both walks fail at the same token.
  | false =>
    refine Pairing.Locked.andThen_inside
      (o := (require .identifier .identifierExpected : Locator Unit).run w)
      (q := (require .identifier .identifierExpected : Locator Unit).run v)
      (Pairing.locked_demand h (readsToken_isKind _)) ?_
    intro _ w' v' hrun
    have hrun : (demand (fun c => c.isKind .identifier) .identifierExpected : Locator Unit).run w =
      .ok () w' := hrun
    rw [run_demand, hname] at hrun
    cases hrun
  | true =>
    have hkind : w.cursor.current.kind = .identifier := by simpa [Cursor.isKind] using hname
    -- The name is made plain in both walks before they go on.
    have hreword : p.Paired { w with cursor := w.cursor.reword (plainName w.cursor.current.text) }
        { v with cursor := v.cursor.reword (plainName v.cursor.current.text) } :=
      ⟨p.replace h.alike rfl (Nat.le_refl _) (p.kind_eq h.alike)
        (congrArg plainName (p.text_eq h.alike)) (p.start_eq h.alike), h.stacked⟩
    obtain ⟨past, hstands⟩ := p.stands hreword.alike
    rw [run_body_member hname, run_body_member ((h.test (readsToken_isKind _)).trans hname)]
    refine (Pairing.locked_advance hreword).andThen_of_quiet ?_ (fun _ => quiet_afterName call) ?_
    · intro _ w' v' hrun h'
      refine locked_afterName H h' ⟨past, ?_⟩
      have := (start_lt_of_advance hstands (by simp [Cursor.reword, Token.isFinish, hkind]) hrun).1
      rw [show (w.cursor.reword (plainName w.cursor.current.text)).current.kind = .identifier
        from hkind] at this
      exact .of_reaches this
    -- The text may be over behind the name, and the longer walk is then behind a name too.
    · intro _ _ u _ _ hu _ _ _
      have hnamed : Ends parsing p.text u (budget + 1) member
          ((afterName (run parsing budget)).run u) := Ends.point Point.named
      rw [hu]
      exact hnamed

/-- A text that is over in a chain of names. -/
theorem chainEnds_of_advance {past : List TokenKind} (hstands : Stands p.text past w.cursor)
    (hw : w.cursor.current.isFinish = false) {a : Unit} (hrun : advance.run w = .ok a v)
    (hv : v.cursor.current.isFinish = true)
    (hchain : endsInChain (w.cursor.current.kind :: past) = true) :
    ChainEnds p.text w.cursor.current.kind :=
  ⟨past, v.cursor, (start_lt_of_advance hstands hw hrun).1, hv, hchain⟩

/-- The walk is in a chain of names. -/
def InChain (text : List Char) (w : Walk (List Nat)) : Prop :=
  ∃ past, Stands text past w.cursor ∧ (past.head? = some .identifier ∨ endsInChain past = true)

/-- With a dot or a plus the chain is open again. -/
theorem InChain.joint {text : List Char} (hchain : InChain text w) (hw : isJoint w.cursor = true) :
    joins w.cursor.current.kind = true ∧ w.cursor.current.isFinish = false ∧
      ∃ past, Stands text past w.cursor ∧ endsInChain (w.cursor.current.kind :: past) = true := by
  obtain ⟨past, hstands, hpast⟩ := hchain
  have hjoins : joins w.cursor.current.kind = true := isJoint_eq _ ▸ hw
  refine ⟨hjoins, isFinish_of_joins hjoins, past, hstands, ?_⟩
  rw [endsInChain_joint hjoins]
  rcases hpast with hhead | hopen
  · simp [hhead]
  · simp [hopen]

/-- What may be left of a chain of names at the edge, before it goes on. -/
def LinkEnds (text : List Char) : Unit → Walk (List Nat) → Located → Prop :=
  fun _ u o => (∃ kind, joins kind = true ∧ ChainEnds text kind ∧ o = linkedName.run u) ∨
    ChainEnds text .identifier ∧ o = .ok () u

/-- A joint may be the last token of a text, and so may the name behind it. -/
theorem locked_link (h : p.Paired w v) (hchain : InChain p.text w) (hw : isJoint w.cursor = true) :
    p.Locked (p.At (LinkEnds p.text)) ((do advance; linkedName : Locator Unit).run w)
      ((do advance; linkedName : Locator Unit).run v) := by
  obtain ⟨hjoins, hfinish, past, hstands, hjoint⟩ := hchain.joint hw
  refine (Pairing.locked_advance h).andThen_of_quiet ?_
    (fun _ => quiet_onlyIf _ fun c hc => isKind_finish (by decide) hc) ?_
  -- Past the joint a name may stand, with which the text may be over.
  · intro _ w' v' hrun h'
    refine Pairing.locked_onlyIf h' (readsToken_isKind _) fun hname => ?_
    have hkind : w'.cursor.current.kind = .identifier := by simpa [Cursor.isKind] using hname
    have hreached := (start_lt_of_advance hstands hfinish hrun).1
    refine (Pairing.locked_advance h').imp_ok ?_
    rintro _ w'' hrun' ⟨u, hparted, hu⟩
    have hend := chainEnds_of_advance (.of_reaches hreached) (by simp [Token.isFinish, hkind]) hrun'
      hparted.finish (by rw [hkind, endsInChain_name, hjoins, hjoint]; rfl)
    rw [hkind] at hend
    rw [hu]
    exact ⟨u, hparted, Or.inr ⟨hend, rfl⟩⟩
  -- Or the text is over with the joint itself.
  · intro _ w' u hrun hparted hu _ _ _
    have hend := chainEnds_of_advance hstands hfinish hrun hparted.finish hjoint
    rw [hu]
    exact Or.inl ⟨_, hjoins, hend, rfl⟩

/-- The next link of a chain is looked for in the chain. -/
theorem inChain_of_link {text : List Char} (hchain : InChain text w)
    (hw : isJoint w.cursor = true)
    (hrun : (do advance; linkedName : Locator Unit).run w = .ok () v) : InChain text v := by
  obtain ⟨hjoins, hfinish, past, hstands, hjoint⟩ := hchain.joint hw
  obtain ⟨_, u, hadvance, hrun⟩ := eq_ok_of_bind hrun
  have hreached := (start_lt_of_advance hstands hfinish hadvance).1
  rw [linkedName, run_onlyIf] at hrun
  split at hrun
  · rename_i hname
    have hkind : u.cursor.current.kind = .identifier := by simpa [Cursor.isKind] using hname
    have hreached' := (start_lt_of_advance (.of_reaches hreached)
      (by simp [Token.isFinish, hkind]) hrun).1
    rw [hkind] at hreached'
    exact ⟨_, .of_reaches hreached', .inl rfl⟩
  · cases hrun
    exact ⟨_, .of_reaches hreached, .inr hjoint⟩

/-- A chain ends with a joint, with a name or with the member that goes on from it. -/
theorem locked_nameChain (H : InStep p parsing budget call) (h : p.Paired w v)
    (hpast : ∃ past, Stands p.text (.identifier :: past) w.cursor) :
    p.Locked (EndsAt p parsing (budget + 1) nameChain) ((body parsing call nameChain).run w)
      ((body parsing (run parsing budget) nameChain).run v) := by
  obtain ⟨past, hstands⟩ := hpast
  have hjoint : ∀ c : Cursor, c.current.isFinish = true → isJoint c = false :=
    fun c hc => isAny_finish (by decide) hc
  -- The loop over joints and names; how it was left tells what the longer walk does next.
  have hloop : p.Locked (p.At fun _ u o => ∃ k o₁, LinkEnds p.text () u o₁ ∧
      o = o₁.andThen fun _ => goOn isJoint (do advance; linkedName) (some k))
      ((goOn isJoint (do advance; linkedName) none).run w)
      ((goOn isJoint (do advance; linkedName) none).run v) := by
    refine Pairing.locked_goOn (J := InChain p.text) (readsToken_isAny _)
      (fun w v hchain h hw => locked_link h hchain hw)
      (fun w v hchain hw hrun => inChain_of_link hchain hw hrun)
      (fun _ _ ⟨_, hparted, _⟩ => ⟨hparted.finish, hjoint⟩) ?_ none none
      ⟨_, hstands, .inl rfl⟩ h
    rintro w o w' k ⟨u, hparted, hu⟩ hsame
    exact ⟨u, hparted.of_samePlace hsame, k, o, hu, rfl⟩
  refine hloop.andThen_of_quiet ?_ (fun _ => quiet_onlyIf _ fun c hc => isKind_finish (by decide) hc) ?_
  · intro _ w v _ h
    exact Pairing.locked_onlyIf h (readsToken_isKind _) fun _ =>
      (H.enter (r := member) h (by decide)).imp
        fun _ _ _ ⟨u, hparted, hu⟩ => ⟨u, hparted, Ends.within (Frame.last rfl) hu⟩
  -- The text is over after a joint, or after one of the names.
  · rintro _ w' u _ _ ⟨k, o₁, ⟨kind, hkind, hend, rfl⟩ | ⟨hend, rfl⟩, ho⟩ _ _ _
    · have hleft : Ends parsing p.text u (budget + 1) nameChain
          ((linkedName >>= fun _ => afterLink (run parsing budget) (some k)).run u) :=
        Ends.point (Point.joint k hkind hend)
      rw [ho, Walk.Outcome.andThen_assoc]
      exact hleft
    · have hleft : Ends parsing p.text u (budget + 1) nameChain
          ((afterLink (run parsing budget) (some k)).run u) := Ends.point (Point.linked k hend)
      rw [ho]
      exact hleft

/-! ## §7. Brackets and arguments. -/

/-- Where the text is over within brackets, they are not closed. -/
theorem locked_bracketed {rule : Rule} (hrule : rule.closes = true) {opening closing : TokenKind}
    {cause cause' : Cause} {inner inner' : Locator Unit} (hclosing : closing ≠ .finish)
    (h : p.Paired w v) (hquiet : Quiet inner)
    (hinner : ∀ w v, p.Paired w v → p.Locked p.Over (inner.run w) (inner'.run v)) :
    p.Locked (EndsAt p parsing (budget + 1) rule)
      ((do expect opening cause; inner; expect closing cause' : Locator Unit).run w)
      ((do expect opening cause; inner'; expect closing cause' : Locator Unit).run v) := by
  refine (Pairing.locked_expect h).over.andThen_of_never ?_
    fun _ => never_bind_right hquiet fun _ => never_expect hclosing
  intro _ w v _ h
  refine (hinner w v h).andThen_of_never ?_ fun _ => never_expect hclosing
  intro _ w v _ h
  refine (Pairing.locked_expect h).imp fun _ _ o hu => ?_
  obtain ⟨u, hparted, rfl⟩ := hu
  exact ⟨u, hparted, Ends.point (Point.closed hrule)⟩

/-- What is done only at some tokens is quiet if doing it is. -/
theorem quiet_onlyIf_of_quiet {test : Cursor → Bool} {x : Locator Unit} (hx : Quiet x) :
    Quiet (onlyIf test x) := by
  intro w hw a v hrun
  rw [run_onlyIf] at hrun
  split at hrun
  · exact hx w hw a v hrun
  · cases hrun
    exact ⟨rfl, rfl⟩

/-- A list of arguments ends with its parenthesis and with nothing before it. -/
theorem locked_argumentList (H : InStep p parsing budget call) (h : p.Paired w v) :
    p.Locked (EndsAt p parsing (budget + 1) argumentList) ((body parsing call argumentList).run w)
      ((body parsing (run parsing budget) argumentList).run v) :=
  locked_bracketed rfl (by decide) h (quiet_onlyIf_of_quiet (H.never (by decide)).quiet)
    fun _ _ h => Pairing.locked_onlyIf h
      (fun c d hkind htext => by simp only [readsToken_isKind _ c d hkind htext])
      fun _ => H.arguments (.inr rfl) h

/-- An element ends with its bracket. -/
theorem locked_elementAccess (H : InStep p parsing budget call) (h : p.Paired w v) :
    p.Locked (EndsAt p parsing (budget + 1) elementAccess) ((body parsing call elementAccess).run w)
      ((body parsing (run parsing budget) elementAccess).run v) :=
  locked_bracketed rfl (by decide) h (H.never (by decide)).quiet
    fun _ _ h => H.arguments (.inr rfl) h

/-- What is in parentheses ends with the closing one. -/
theorem locked_parenthesized (H : InStep p parsing budget call) (h : p.Paired w v) :
    p.Locked (EndsAt p parsing (budget + 1) parenthesized) ((body parsing call parenthesized).run w)
      ((body parsing (run parsing budget) parenthesized).run v) :=
  locked_bracketed rfl (by decide) h (H.never (by decide)).quiet
    fun _ _ h => (H.enter (r := conditional) h (by decide)).over

/-- A demand moves no walk. -/
theorem quiet_demand {test : Cursor → Bool} {cause : Cause} :
    Quiet (demand test cause : Locator Unit) := by
  intro w _ a v hrun
  rw [run_demand] at hrun
  split at hrun <;> cases hrun
  exact ⟨rfl, rfl⟩

/-- The two words of a discarded argument are read in both texts, or the first one is over. -/
theorem locked_discardedOut (h : p.Paired w v) :
    p.Locked p.Over ((discardedOut : Locator Bool).run w) ((discardedOut : Locator Bool).run v) := by
  refine Pairing.locked_ifLook h (readsToken_isOneOf _ _) (fun _ => ?_) fun _ => .ok h
  refine (Pairing.locked_advance h).over.andThen_of_over ?_ fun _ =>
    quiet_bind quiet_demand fun _ => quiet_bind quiet_advance fun _ => quiet_pure _
  intro _ w v _ h
  refine Pairing.Locked.andThen_of_over (Pairing.locked_demand h
    (fun c d _ htext => by simp only [htext])) ?_ fun _ => quiet_bind quiet_advance fun _ => quiet_pure _
  intro _ w v _ h
  exact (Pairing.locked_advance h).over.andThen_of_over (fun _ _ _ _ h => .ok h) fun _ => quiet_pure _

/-- The text may be over after an argument, but then a parenthesis is missing. -/
theorem locked_argument (H : InStep p parsing budget call) (h : p.Paired w v) :
    p.Locked p.Over ((body parsing call argument).run w)
      ((body parsing (run parsing budget) argument).run v) := by
  refine (locked_discardedOut h).andThen_of_over ?_ fun found => ?_
  · intro found w v _ h
    cases found with
    | true => exact .ok h
    | false => exact (H.enter (r := conditional) h (by decide)).over
  · cases found with
    | true => exact quiet_pure ()
    | false => exact (H.never (r := conditional) (by decide)).quiet

/-- After several arguments the text may be over as well. -/
theorem locked_arguments (H : InStep p parsing budget call) (h : p.Paired w v) :
    p.Locked p.Over ((body parsing call arguments).run w)
      ((body parsing (run parsing budget) arguments).run v) := by
  have hcomma : ∀ c : Cursor, c.current.isFinish = true → c.isKind .comma = false :=
    fun c hc => isKind_finish (by decide) hc
  refine (H.arguments (r := argument) (.inl rfl) h).andThen_of_over ?_
    fun _ => quiet_goOn (do advance; call argument) none hcomma
  intro _ w v _ h
  refine Pairing.locked_goOn (J := fun _ => True) (S := p.Over) (readsToken_isKind _) ?_
    (fun _ _ _ _ _ => trivial) (fun _ _ hover => ⟨hover.2, hcomma⟩)
    (fun w o w' _ hover hsame => ⟨hover.1, by rw [hsame.1]; exact hover.2⟩) none none trivial h
  intro w v _ h _
  exact (Pairing.locked_advance h).over.andThen_of_over
    (fun _ _ _ _ h => H.arguments (.inl rfl) h) fun _ => (H.never (r := argument) (by decide)).quiet

/-! ## §8. Creation. -/

/-- A loop in which the text may be over, but not with what it is part of. -/
theorem locked_repeatStep {α : Type} (step step' : α → Locator (Bool × α)) {a : α}
    (hstep : ∀ a w v, p.Paired w v → p.Locked p.Over ((step a).run w) ((step' a).run v))
    (hquiet : ∀ a, Quiet (step a)) (h : p.Paired w v) :
    p.Locked p.Over ((repeatStep step a).run w) ((repeatStep step' a).run v) := by
  rw [run_repeatStep, run_repeatStep]
  refine Pairing.locked_repeatUpTo (J := fun _ _ => True) (fun a w v _ h => hstep a w v h)
    (fun _ _ _ _ _ _ => trivial) ?_ _ _ trivial h
  rintro ⟨again, b⟩ w o k k' _ hover c w' hrun
  refine ⟨hover.1, ?_⟩
  cases again with
  | false =>
    cases hrun
    exact hover.2
  | true =>
    rw [(quiet_repeatUpTo hquiet k b w hover.2 c w' hrun).1]
    exact hover.2

/-- No dot and no word is at the end of a text. -/
theorem quiet_dottedStep (name : String) : Quiet (dottedStep name) := by
  refine quiet_bind (quiet_look _) fun token => ?_
  split
  · exact quiet_bind quiet_advance fun _ => quiet_pure _
  · exact quiet_pure _

/-- A dotted name is read as far as both texts have it. -/
theorem locked_dottedName (h : p.Paired w v) :
    p.Locked p.Over ((dottedName : Locator String).run w) ((dottedName : Locator String).run v) := by
  refine locked_repeatStep dottedStep dottedStep ?_ quiet_dottedStep h
  intro name w v h
  show p.Locked _ ((if w.cursor.current.kind = .dot || w.cursor.current.kind = .identifier then (do
      advance
      pure (true, name ++ w.cursor.current.text)) else pure (false, name) :
    Locator (Bool × String)).run w)
    ((if v.cursor.current.kind = .dot || v.cursor.current.kind = .identifier then (do
      advance
      pure (true, name ++ v.cursor.current.text)) else pure (false, name) :
    Locator (Bool × String)).run v)
  rw [p.kind_eq h.alike, p.text_eq h.alike]
  split
  · exact (Pairing.locked_advance h).over.andThen_of_over (fun _ _ _ _ h => .ok h)
      fun _ => quiet_pure _
  · exact .ok h

/-- The name of an alias, be it one word or dotted. -/
theorem locked_aliasName (dotted : Bool) (h : p.Paired w v) :
    p.Locked p.Over ((aliasName dotted : Locator String).run w)
      ((aliasName dotted : Locator String).run v) := by
  -- The name is one token or a loop; at the end of a text both fail.
  cases dotted with
  | true =>
    refine Pairing.Locked.andThen_of_over (f := fun _ => plainName <$> dottedName)
      (g := fun _ => plainName <$> dottedName)
      (Pairing.locked_demand h (readsToken_isKind _)) ?_ fun _ => ?_
    · intro _ w v _ h
      exact (locked_dottedName h).andThen_of_over (fun _ _ _ _ h => .ok h) fun _ => quiet_pure _
    · exact quiet_bind (quiet_bind (quiet_look _) fun _ => quiet_repeatUpTo quiet_dottedStep _ _)
        fun _ => quiet_pure _
  | false =>
    refine Pairing.Locked.andThen_of_over
      (f := fun _ => do let name := plainName (← current).text; advance; pure name)
      (g := fun _ => do let name := plainName (← current).text; advance; pure name)
      (Pairing.locked_demand h (readsToken_isKind _)) ?_ fun _ =>
        quiet_bind (quiet_look _) fun _ => quiet_bind quiet_advance fun _ => quiet_pure _
    intro _ w v _ h
    show p.Locked _ ((do advance; pure (plainName w.cursor.current.text) : Locator String).run w)
      ((do advance; pure (plainName v.cursor.current.text) : Locator String).run v)
    rw [p.text_eq h.alike]
    exact (Pairing.locked_advance h).over.andThen_of_over (fun _ _ _ _ h => .ok h) fun _ => quiet_pure _

/-- At the end of a text an alias has no name. -/
theorem quiet_aliasName (dotted : Bool) : Quiet (aliasName dotted : Locator String) :=
  (never_bind_left (never_demand fun _ hc => isKind_finish (by decide) hc) _).quiet

/-- A member of what `new` makes, with its alias. -/
theorem locked_createdMember (H : InStep p parsing budget call) (isArray : Bool)
    (h : p.Paired w v) :
    p.Locked p.Over ((createdMember parsing call isArray).run w)
      ((createdMember parsing (run parsing budget) isArray).run v) := by
  refine (H.enter (r := conditional) h (by decide)).over.andThen_of_over ?_ fun _ =>
    quiet_onlyIf_of_quiet (quiet_bind quiet_advance fun _ =>
      quiet_bind (quiet_aliasName _) fun _ => quiet_pure _)
  intro _ w v _ h
  refine Pairing.locked_onlyIf h
    (fun c d hkind htext => by simp only [readsToken_isWord _ c d hkind htext]) fun _ => ?_
  refine (Pairing.locked_advance h).over.andThen_of_over ?_ fun _ =>
    quiet_bind (quiet_aliasName _) fun _ => quiet_pure _
  intro _ w v _ h
  exact (locked_aliasName _ h).andThen_of_over (fun _ _ _ _ h => .ok h) fun _ => quiet_pure _

theorem quiet_comma : Quiet comma := by
  refine quiet_bind (quiet_look _) fun found => ?_
  split
  · exact quiet_bind quiet_advance fun _ => quiet_pure _
  · exact quiet_pure _

/-- All of its members: behind them a bracket is missing if the text is over. -/
theorem locked_createdMembers (H : InStep p parsing budget call) (isArray : Bool)
    (h : p.Paired w v) :
    p.Locked p.Over ((createdMembers parsing call isArray).run w)
      ((createdMembers parsing (run parsing budget) isArray).run v) := by
  refine locked_repeatStep _ _ ?_ (fun _ => ?_) h
  · intro _ w v h
    refine Pairing.locked_ifLook h (readsToken_isAny _) (fun _ => .ok h) fun _ => ?_
    refine (locked_createdMember H isArray h).andThen_of_over ?_ fun _ => quiet_comma
    intro _ w v _ h
    refine Pairing.locked_ifLook h (readsToken_isKind _) (fun _ => ?_) fun _ => .ok h
    exact (Pairing.locked_advance h).over.andThen_of_over (fun _ _ _ _ h => .ok h)
      fun _ => quiet_pure _
  · refine quiet_bind (quiet_look _) fun closed => ?_
    split
    · exact quiet_pure _
    · exact quiet_bind (never_bind_left (H.never (by decide)) _).quiet fun _ => quiet_comma

/-- Members are looked for where there is a token. -/
theorem never_createdMembers (hconditional : Never (call conditional)) (isArray : Bool) :
    Never (createdMembers parsing call isArray) := by
  refine never_bind_right (quiet_look _) fun c => ?_
  exact never_bind_left (never_ifLook (fun _ hc => isAny_finish (by decide) hc)
    (never_bind_left (never_bind_left hconditional _) _)) _

/-- The name of a type after `new` has a bracket behind it, so no text ends there. -/
theorem locked_createdType (h : p.Paired w v) :
    p.Locked (fun _ _ _ => False) (createdType.run w) (createdType.run v) := by
  have hdemand : Never (demand (fun c => c.isAny [.openParen, .openBracket, .openCurly])
      .openParenExpected : Locator Unit) := never_demand fun _ hc => isAny_finish (by decide) hc
  have htest : ∀ c : Cursor, c.current.isFinish = true → isJoint c = false :=
    fun c hc => isAny_finish (by decide) hc
  refine (Pairing.locked_advance h).over.andThen_of_never ?_
    fun _ => never_bind_right (quiet_goOn createdTypePart none htest) fun _ => hdemand
  intro _ w v _ h
  refine Pairing.Locked.andThen_of_never (o := (goOn isJoint createdTypePart none).run w)
    (q := (goOn isJoint createdTypePart none).run v) ?_
    (fun _ _ _ _ h => Pairing.locked_demand h (readsToken_isAny _)) fun _ => hdemand
  refine Pairing.locked_goOn (J := fun _ => True) (S := p.Over) (readsToken_isAny _) ?_
    (fun _ _ _ _ _ => trivial) (fun _ _ hover => ⟨hover.2, htest⟩)
    (fun w o w' _ hover hsame => ⟨hover.1, by rw [hsame.1]; exact hover.2⟩) none none trivial h
  intro w v _ h _
  exact (Pairing.locked_advance h).over.andThen_of_over
    (fun _ _ _ _ h => (Pairing.locked_expect h).over) fun _ => (never_expect (by decide)).quiet

/-- The brackets of an array do not end a text, since curly ones have to follow. -/
theorem locked_arrayMark (h : p.Paired w v) :
    p.Locked (fun _ _ _ => False) (arrayMark.run w) (arrayMark.run v) := by
  have hrequire : Never (require .openCurly .openCurlyExpected : Locator Unit) :=
    never_demand fun _ hc => isKind_finish (by decide) hc
  refine Pairing.locked_ifLook h (readsToken_isKind _) (fun _ => ?_) fun _ => .ok h
  refine (Pairing.locked_advance h).over.andThen_of_never ?_
    fun _ => never_bind_left (never_expect (by decide)) _
  intro _ w v _ h
  refine (Pairing.locked_expect h).over.andThen_of_never ?_
    fun _ => never_bind_left hrequire _
  intro _ w v _ h
  exact (Pairing.locked_demand h (readsToken_isKind _)).andThen_inside fun _ _ _ _ h => .ok h

/-- A creation ends with its closing bracket. -/
theorem locked_creation (H : InStep p parsing budget call) (h : p.Paired w v) :
    p.Locked (EndsAt p parsing (budget + 1) creation) ((body parsing call creation).run w)
      ((body parsing (run parsing budget) creation).run v) := by
  refine (Pairing.locked_advance h).over.andThen_of_never ?_
    fun _ => never_bind_left (never_demand fun _ hc => isAny_finish (by decide) hc) _
  intro _ w v _ h
  -- A bracket or a name has to come next, so that the text is not over.
  refine (Pairing.locked_demand h (readsToken_isAny _)).andThen_inside ?_
  intro _ w v _ h
  refine Pairing.Locked.andThen_inside
    (Pairing.locked_onlyIf h (readsToken_isKind _) fun _ => locked_createdType h) ?_
  intro _ w v _ h
  refine (locked_arrayMark h).andThen_inside ?_
  intro isArray w v _ h
  refine (Pairing.locked_advance h).over.andThen_of_never ?_
    fun _ => never_bind_left (never_createdMembers (H.never (by decide)) isArray) _
  intro _ w v _ h
  -- Only behind its last bracket can a creation be over with the text.
  refine (locked_createdMembers H isArray h).andThen_of_never ?_
    fun _ => never_bind_left (never_demand fun _ hc => isAny_finish (by decide) hc) _
  intro _ w v _ h
  refine (Pairing.locked_demand h (readsToken_isAny _)).andThen_inside ?_
  intro _ w v _ h
  refine (Pairing.locked_advance h).imp fun _ _ o hu => ?_
  obtain ⟨u, hparted, rfl⟩ := hu
  exact ⟨u, hparted, Ends.point (Point.closed rfl)⟩

/-! ## §9. Literals. -/

/-- Where a literal stands shows only in the place of its fault. -/
theorem value_congr (dialect : Dialect) (literal : String) (position position' : Nat) :
    (∃ value, Literal.value dialect position literal = .ok value ∧
      Literal.value dialect position' literal = .ok value) ∨
    ∃ cause, Literal.value dialect position literal = .error ⟨cause, position⟩ ∧
      Literal.value dialect position' literal = .error ⟨cause, position'⟩ := by
  unfold Literal.value
  split
  · split
    · exact .inr ⟨_, rfl, rfl⟩
    · split
      · exact .inr ⟨_, rfl, rfl⟩
      · split
        · exact .inr ⟨_, rfl, rfl⟩
        · exact .inl ⟨_, rfl, rfl⟩
  · exact .inr ⟨_, rfl, rfl⟩

/-- What a literal stands for is read off its wording alone. -/
theorem run_literalValue (literal : String) (w : Walk (List Nat)) :
    (literalValue parsing literal).run w =
      (ofExcept (Literal.value parsing.dialect w.cursor.current.start literal)).run w := rfl

/-- Literals of one wording are both right or both wrong. -/
theorem locked_literalValue (literal : String) (h : p.Paired w v) :
    p.Locked (fun _ _ _ => False) ((literalValue parsing literal).run w)
      ((literalValue parsing literal).run v) := by
  rw [run_literalValue, run_literalValue]
  rcases value_congr parsing.dialect literal w.cursor.current.start v.cursor.current.start with
    ⟨value, hw, hv⟩ | ⟨cause, hw, hv⟩ <;> rw [hw, hv]
  · exact .ok h
  · exact .error h.stacked rfl

/-- Reading ahead succeeds in both texts or fails in both, unless the first one may be over first. -/
theorem locked_ofExcept (e e' : Except Fault Cursor) {f g : Cursor → Locator Unit}
    (h : p.Paired w v)
    (hok : ∀ c, e = .ok c → ∃ d, e' = .ok d ∧
      p.Locked (fun _ _ _ => False) ((f c).run w) ((g d).run v))
    (herror : ∀ fault, e = .error fault → p.ends ∨ ∃ fault', e' = .error fault' ∧
      fault'.cause = fault.cause) :
    p.Locked (fun _ _ _ => False) ((ofExcept e >>= f).run w) ((ofExcept e' >>= g).run v) := by
  cases e with
  | ok c =>
    obtain ⟨d, rfl, hlocked⟩ := hok c rfl
    exact hlocked
  | error fault =>
    rcases herror fault rfl with hends | ⟨fault', rfl, hcause⟩
    · exact .failed hends
    · exact .error h.stacked hcause

/-- Reading ahead meets the same tokens, or the edge. -/
theorem locked_lookAhead (h : p.Paired w v) :
    p.Locked (fun _ _ _ => False) (lookAhead.run w) (lookAhead.run v) := by
  refine locked_ofExcept w.cursor.next v.cursor.next h ?_
    fun fault hfault => p.next_error h.alike hfault
  intro c hc
  obtain ⟨d, hd, hcd⟩ := p.next_ok h.alike hc
  refine ⟨d, hd, ?_⟩
  rcases hcd with halike | hcross
  · rw [show d.isKind .question = c.isKind .question from
      readsToken_isKind .question c d (p.kind_eq halike) (p.text_eq halike)]
    split
    · exact locked_ofExcept _ _ h
        (fun c' hc' => have ⟨d', hd', _⟩ := p.next_ok halike hc'; ⟨d', hd', .ok h⟩)
        fun fault hfault => p.next_error halike hfault
    · exact .ok h
  · rw [if_neg (by simp [isKind_finish (show TokenKind.question ≠ .finish by decide) (p.finish_of_cross hcross)]),
      if_neg (by simpa [Cursor.isKind] using p.question_of_cross hcross)]
    exact .ok h

/-- The end of a text is no literal. -/
theorem quiet_literalStep (joined : String) : Quiet (literalStep joined) := by
  refine quiet_bind (quiet_look _) fun token => ?_
  split
  · exact quiet_bind quiet_advance fun _ => quiet_pure _
  · exact quiet_pure _

theorem locked_literalStep (joined : String) (h : p.Paired w v) :
    p.Locked (p.At fun next u o => next.1 = true ∧ o = .ok next u)
      ((literalStep joined).run w) ((literalStep joined).run v) := by
  show p.Locked _ ((if w.cursor.current.kind = .stringLiteral then (do
      advance
      pure (true, joined ++ w.cursor.current.text)) else pure (false, joined) :
    Locator (Bool × String)).run w)
    ((if v.cursor.current.kind = .stringLiteral then (do
      advance
      pure (true, joined ++ v.cursor.current.text)) else pure (false, joined) :
    Locator (Bool × String)).run v)
  -- Which branch is taken is told by the kind, and the text joined is the same.
  rw [p.kind_eq h.alike, p.text_eq h.alike]
  split
  · refine (Pairing.locked_advance h).andThen_of_quiet (fun _ _ _ _ h => .ok h)
      (fun _ => quiet_pure _) ?_
    intro _ w u _ _ hu b w' hrun
    cases hrun
    rw [hu]
    exact ⟨rfl, rfl⟩
  · exact .ok h

/-- At the end of a text no literal follows. -/
theorem run_literalStep_finish {joined : String} (hw : w.cursor.current.isFinish = true) :
    (literalStep joined).run w = .ok (false, joined) w := by
  have hkind : w.cursor.current.kind = .finish := Token.isFinish_iff.1 hw
  show (if w.cursor.current.kind = .stringLiteral then (do
      advance
      pure (true, joined ++ w.cursor.current.text)) else pure (false, joined) :
    Locator (Bool × String)).run w = _
  rw [hkind]
  rfl

/-- What may be left of literals in a row at the edge: the loop, with those that were read. -/
def LiteralEnds : String → Walk (List Nat) → Walk.Outcome (List Nat) String → Prop :=
  fun joined u o => ∃ k, o = (repeatUpTo literalStep k joined).run u

/-- A row of literals ends with the last one of them. -/
theorem locked_literals (k k' : Nat) (joined : String) (h : p.Paired w v) :
    p.Locked (p.At LiteralEnds) ((repeatUpTo literalStep k joined).run w)
      ((repeatUpTo literalStep k' joined).run v) := by
  refine Pairing.locked_repeatUpTo (J := fun _ _ => True)
    (fun joined w v _ h => locked_literalStep joined h) (fun _ _ _ _ _ _ => trivial) ?_ k k' trivial h
  rintro ⟨again, joined⟩ w o k k' _ ⟨u, hparted, hagain, rfl⟩ b w' hrun
  cases hagain
  cases k with
  | zero => cases hrun
  | succ k =>
    have hrun : ((literalStep joined).run w).andThen (fun next =>
      if next.1 then repeatUpTo literalStep k next.2 else pure next.2) = .ok b w' := hrun
    rw [run_literalStep_finish hparted.finish] at hrun
    cases hrun
    exact ⟨u, hparted, k', rfl⟩

/-- Literals that are read on from a first one. -/
theorem locked_adjacentLiterals (first : String) (h : p.Paired w v) :
    p.Locked (p.At LiteralEnds) ((adjacentLiterals first).run w)
      ((adjacentLiterals first).run v) := by
  refine (Pairing.locked_advance h).andThen_of_quiet
    (fun _ w v _ h => by rw [run_repeatStep, run_repeatStep]; exact locked_literals _ _ first h)
    (fun _ => quiet_bind (quiet_look _) fun _ => quiet_repeatUpTo quiet_literalStep _ _) ?_
  intro _ w u _ hparted hu b w' hrun
  have hrun : ((literalStep first).run w).andThen (fun next =>
    if next.1 then repeatUpTo literalStep (w.cursor.size + 1) next.2 else pure next.2) =
      .ok b w' := hrun
  rw [run_literalStep_finish hparted.finish] at hrun
  cases hrun
  rw [hu]
  exact ⟨u.cursor.size + 2, rfl⟩

/-- To look up what a literal stands for moves no walk. -/
theorem quiet_literalValue (literal : String) : Quiet (literalValue parsing literal) := by
  intro w _ a v hrun
  rw [run_literalValue] at hrun
  cases hvalue : Literal.value parsing.dialect w.cursor.current.start literal <;>
    rw [hvalue] at hrun <;> cases hrun
  exact ⟨rfl, rfl⟩

/-- After the look ahead, a literal ends with its own token or with the row that it starts. -/
theorem locked_literalRest (wording : String) (h : p.Paired w v) :
    p.Locked (EndsAt p parsing (budget + 1) text) ((literalRest parsing wording).run w)
      ((literalRest parsing wording).run v) := by
  refine (locked_literalValue wording h).andThen_inside ?_
  intro value w v _ h
  -- A literal in single quotes is one character; one in double quotes may have more behind it.
  split
  · split
    · exact .error h.stacked rfl
    · refine (Pairing.locked_advance h).imp fun _ _ o hu => ?_
      obtain ⟨u, hparted, rfl⟩ := hu
      exact ⟨u, hparted, Ends.point (Point.closed rfl)⟩
  · refine (locked_adjacentLiterals wording h).andThen_of_quiet ?_
      (fun joined => quiet_bind (quiet_literalValue joined) fun _ => quiet_pure ()) ?_
    · intro joined w v _ h
      exact (locked_literalValue joined h).andThen_inside fun _ _ _ _ h => .ok h
    · rintro joined w u _ _ ⟨k, hu⟩ _ w' hrun
      -- The value that the first walk has taken is there for the second one.
      obtain ⟨value, hvalue⟩ : ∃ value,
          Literal.value parsing.dialect w.cursor.current.start joined = .ok value := by
        have hrun : ((ofExcept (Literal.value parsing.dialect w.cursor.current.start joined)).run
          w).andThen (fun _ => pure ()) = .ok () w' := hrun
        cases hvalue : Literal.value parsing.dialect w.cursor.current.start joined with
        | ok value => exact ⟨value, rfl⟩
        | error fault =>
          rw [hvalue] at hrun
          cases hrun
      have hleft : Ends parsing p.text u (budget + 1) text ((afterLiteral parsing k joined).run u) :=
        Ends.point (Point.literals k hvalue)
      rw [hu]
      exact hleft

/-- A literal ends with its last token. -/
theorem locked_text (h : p.Paired w v) :
    p.Locked (EndsAt p parsing (budget + 1) text) ((body parsing call text).run w)
      ((body parsing (run parsing budget) text).run v) := by
  refine (locked_lookAhead h).andThen_inside ?_
  intro _ w v _ h
  show p.Locked _ ((literalRest parsing w.cursor.current.text).run w)
    ((literalRest parsing v.cursor.current.text).run v)
  rw [p.text_eq h.alike]
  exact locked_literalRest _ h

/-! ## §10. Every rule. -/

/-- **The bodies keep the walks in step if their calls do.** -/
theorem locked_body (H : InStep p parsing budget call) {r : Rule} (hargument : r ≠ argument)
    (harguments : r ≠ arguments) (h : p.Paired w v) (hr : Enters p.text r w.cursor) :
    p.Locked (EndsAt p parsing (budget + 1) r) ((body parsing call r).run w)
      ((body parsing (run parsing budget) r).run v) := by
  cases r with
  | conditional => exact locked_conditional H h
  | coalescing => exact locked_coalescing H h
  | projection => exact locked_projection H h
  | disjunction | conjunction | bitwise | comparison | shift | sum | product =>
    exact locked_operators H rfl h
  | containment => exact locked_containment H h
  | unary => exact locked_unary H h
  | operand => exact locked_operand H h
  | primary => exact locked_primary H h
  | member => exact locked_member H h
  | nameChain => exact locked_nameChain H h (hr rfl)
  | argumentList => exact locked_argumentList H h
  | arguments => exact absurd rfl harguments
  | argument => exact absurd rfl hargument
  | elementAccess => exact locked_elementAccess H h
  | creation => exact locked_creation H h
  | parenthesized => exact locked_parenthesized H h
  | text => exact locked_text h

/-- **Every rule keeps the walks in step, whatever the two budgets.** -/
theorem inStep_run (p : Pairing) (parsing : Parsing) (budget budget' : Nat) :
    InStep p parsing budget' (run parsing budget) := by
  induction budget generalizing budget' with
  | zero =>
    exact ⟨fun _ _ _ _ => .deepFirst ⟨_, _, rfl⟩, fun _ _ => .deepFirst ⟨_, _, rfl⟩,
      fun hr => never_run parsing 0 _ hr, restores_run parsing 0⟩
  | succ budget ih =>
    refine ⟨?_, ?_, fun hr => never_run parsing (budget + 1) _ hr, restores_run parsing (budget + 1)⟩
    · intro r w v hargument harguments h hr
      cases budget' with
      | zero => exact .deepSecond ⟨_, v, rfl⟩
      | succ budget' => exact locked_body (ih budget') hargument harguments h hr
    · intro r w v hr h
      cases budget' with
      | zero => exact .deepSecond ⟨_, v, rfl⟩
      | succ budget' =>
        rcases hr with rfl | rfl
        · exact locked_argument (ih budget') h
        · exact locked_arguments (ih budget') h

end Rule

end TypeAhead.Fragment
