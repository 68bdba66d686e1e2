/-
  TypeAhead.Proofs.Fragment.Prolonged — EVERY RULE GOES THE SAME WAY BEFORE A MEMBER.

  Rule by rule, what a walk does is repeated in the text that goes on with a member,
  be it to succeed or to fail.  Three loops take the member: what is attached to an
  operand, a chain of names, if one is open, and the dotted name of a type or of an
  alias.  A list in parentheses after `in` is the one thing that may end a text
  outside of an operand: there the member is left where it is.

      prolongs_body    the bodies of all rules, given their calls
      prolongs_run     every rule, with more budget than the first walk has
-/
import TypeAhead.Proofs.Fragment.Echo

namespace TypeAhead.Fragment.Rule

open Walker Pairing

variable {α : Type} {p : Pairing} {parsing : Parsing} {call call' : Rule → Locator Unit}
  {rule sub : Rule} {test : Cursor → Bool} {w v : Walk (List Nat)} {K M : Cursor → Cursor → Prop}
  {P : Cursor → Prop}

/-! ## §1. Calls. -/

/-- The rules that start with an operand. -/
def opensOperand (rule : Rule) : Bool := rule.first?.isSome || rule == argument || rule == arguments

/-- Where the second walk may be after a rule with which the first text is over: an operand has taken the
member.  Only the name of a discarded argument is not told from a question mark. -/
def leavesAt (text : List Char) : Rule → Cursor → Cursor → Prop
  | bitwise | comparison | shift | sum | product | unary | operand => Through text AtEnd
  | argument | arguments => fun _ => EndOrMember
  | _ => Through text EndOrMember

/-- Whatever rule it was, the second walk is on the member or has taken it. -/
theorem short_leavesAt (text : List Char) (rule : Rule) : Short (rule.leavesAt text) := by
  intro c d h
  cases rule <;> first | exact h | exact h.2 | exact .inl h.2

/-- The rule takes the member and comes to the end of the text; nothing else is changed. -/
def Takes (x : Locator Unit) (v : Walk (List Nat)) : Prop :=
  ∃ c, x.run v = .ok () { v with cursor := c } ∧ AtEnd c

/-- The calls of two bodies correspond. -/
structure Prolongs (p : Pairing) (call call' : Rule → Locator Unit) : Prop where
  echoes : ∀ {r w v}, (r = text → w.cursor.current.kind = .stringLiteral) → p.Aligned w v →
    p.Echoes (r.leavesAt p.text) ((call r).run w) ((call' r).run v)
  /-- Where the first text is over there is no operand, and the member starts with none. -/
  opens : ∀ {r}, r.opensOperand = true → p.Missing (call r) (call' r)
  /-- Nor is the end of the text a member, and the member starts with no name. -/
  misses : p.Missing (call member) (call' member)
  /-- An operand for which there is no token has been opened. -/
  lacks : ∀ {w}, AtEnd w.cursor → OpensNothing p.text w →
    ∃ failure u, (call primary).run w = .error failure u ∧ OpensNothing p.text u
  restores : ∀ r, Restores (call r)
  forward : Forward call
  attaches : ∀ {v}, LastMember v.cursor → Takes (do advance; call' member) v
  chains : ∀ {v}, LastMember v.cursor → Takes (call' nameChain) v

/-- A call of any rule but that for literals, which has to start on one. -/
theorem Prolongs.enter (H : Prolongs p call call') (r : Rule) (hr : r ≠ text) (h : p.Aligned w v) :
    p.Echoes (r.leavesAt p.text) ((call r).run w) ((call' r).run v) :=
  H.echoes (fun htext => absurd htext hr) h

/-- The loops of the first walk take a token in each round. -/
theorem Prolongs.rounds (H : Prolongs p call call') (parsing : Parsing) {step : α → Locator (Bool × α)}
    (h : Loop parsing call α step) : RoundsConsume step :=
  roundsConsume_of_loop H.forward h

/-- A call after a token that was read. -/
theorem Prolongs.advance (H : Prolongs p call call') (hp : p.Dotted) (r : Rule)
    (hr : r ≠ text ∧ r.opensOperand = true) (h : p.Aligned w v) :
    p.Echoes (r.leavesAt p.text) ((do advance; call r : Locator Unit).run w)
      ((do advance; call' r : Locator Unit).run v) :=
  echo_bind (echo_advance hp h) (fun _ _ _ _ h => H.enter r hr.1 h)
    fun _ _ _ h => (H.opens hr.2).echoes short_memberBehind h

/-- The member is taken where the first walk has nothing to do. -/
theorem echo_of_takes {y : Locator Unit} (h : p.Ended M w v) (hy : Takes y v)
    (hK : ∀ d, AtEnd d → K w.cursor d) : p.Echoes K (.ok () w) (y.run v) := by
  obtain ⟨c, hrun, hover⟩ := hy
  rw [hrun]
  exact echo_ended () ⟨h.finished, h.reached, hK _ hover, h.stacked, h.depth_eq⟩

/-! ## §2. Operators. -/

/-- A dot is no operator, of whatever level. -/
theorem operators?_member (h : rule.operators? = some (sub, test)) {d : Cursor} (hd : LastMember d) :
    test d = false :=
  operators?_of_not h (by rw [hd.dot]; decide) (by rw [Cursor.isWord, hd.dot]; rfl)

/-- Behind an operand neither the end of the text nor the member is an operator. -/
theorem declines_operators (h : rule.operators? = some (sub, test)) (hK : Short K) : Declines test K := by
  refine ⟨fun _ _ hc _ => (operators?_test h).2 _ hc, fun c d hd => ?_⟩
  rcases hK c d hd with hd | hd
  · exact (operators?_test h).2 d hd
  · exact operators?_member h hd

/-- A rule for the operators of one level: its operand, and as long as there are operators the next one. -/
theorem echo_operators (hp : p.Dotted) (H : Prolongs p call call')
    (hoperators : rule.operators? = some (sub, test)) (h : p.Aligned w v) :
    p.Echoes (rule.leavesAt p.text) ((body parsing call rule).run w) ((body parsing call' rule).run v) := by
  have hsub : sub ≠ text ∧ sub.opensOperand = true := by cases rule <;> cases hoperators <;> decide
  have hneeds : needsToken sub := by cases rule <;> cases hoperators <;> exact ⟨nofun, nofun⟩
  have hleaves : rule.leavesAt p.text = sub.leavesAt p.text := by cases rule <;> cases hoperators <;> rfl
  have htest : Declines test (sub.leavesAt p.text) := declines_operators hoperators (short_leavesAt _ sub)
  rw [body_operators hoperators, body_operators hoperators, hleaves]
  refine echo_bind (H.enter sub hsub.1 h) (fun _ _ _ _ h => ?_) fun _ _ _ h => ended_repeatWhile htest h
  exact echo_repeatWhile hp (operators?_test hoperators).1 (H.rounds parsing (.links hneeds test))
    (fun _ _ h _ => H.advance hp sub hsub h) (fun _ _ k _ hk h => ended_loop htest k (by omega) h) h

/-! ## §3. Choices and containments. -/

/-- The two other operands of a choice. -/
theorem echo_choice (hp : p.Dotted) (H : Prolongs p call call') (h : p.Aligned w v) :
    p.Echoes (Through p.text EndOrMember) ((choice call).run w) ((choice call').run v) := by
  refine echo_onlyIf h (readsToken_isKind _) fun _ => ?_
  refine echo_bind (echo_advance hp h) (fun _ _ _ _ h => ?_)
    fun _ _ _ h => (missing_bind (H.opens (by decide)) _ _).echoes short_memberBehind h
  refine echo_bind (H.enter conditional (by decide) h) (fun _ _ _ _ h => ?_)
    fun _ _ _ h => ended_expectThen h (short_leavesAt _ _) (by decide)
  exact echo_bind (echo_expect hp h) (fun _ _ _ _ h => H.enter conditional (by decide) h)
    fun _ _ _ h => (H.opens (by decide)).echoes short_memberBehind h

/-- A condition, and where a question mark follows the two branches. -/
theorem echo_conditional (hp : p.Dotted) (H : Prolongs p call call') (h : p.Aligned w v) :
    p.Echoes (Through p.text EndOrMember) ((body parsing call conditional).run w)
      ((body parsing call' conditional).run v) := by
  refine echo_nested h fun h => ?_
  exact echo_bind (H.enter coalescing (by decide) h) (fun _ _ _ _ h => echo_choice hp H h)
    fun _ _ _ h => ended_onlyIf h (declines_isKind (short_leavesAt _ coalescing) (by decide))

/-- An operand, and where `??` follows the other one, which is read by the same rule. -/
theorem echo_coalescing (hp : p.Dotted) (H : Prolongs p call call') (h : p.Aligned w v) :
    p.Echoes (Through p.text EndOrMember) ((body parsing call coalescing).run w)
      ((body parsing call' coalescing).run v) := by
  refine echo_bind (H.enter projection (by decide) h) (fun _ _ _ _ h => ?_)
    fun _ _ _ h => ended_onlyIf h (declines_isKind (short_leavesAt _ projection) (by decide))
  exact echo_onlyIf h (readsToken_isKind _) fun _ => H.advance hp conditional (by decide) h

/-- After an arrow a parenthesis has to stand, so no text is over there. -/
theorem echo_arrow (hp : p.Dotted) (H : Prolongs p call call') (h : p.Aligned w v) :
    p.Echoes K ((arrow call).run w) ((arrow call').run v) := by
  have hmissed : ∀ {M : Cursor → Cursor → Prop} {w v}, Short M → p.Ended M w v →
      p.Echoes K ((require .openParen .openParenExpected : Locator Unit).run w)
        ((require .openParen .openParenExpected : Locator Unit).run v) :=
    fun hM h => ended_demand h (declines_isKind hM (by decide))
  refine echo_onlyIf h (readsToken_isKind _) fun _ => ?_
  refine echo_bind (echo_advance hp h) (fun _ w v _ h => ?_) fun _ w v h => ?_
  · exact echo_bind (x := onlyIf _ (call conditional)) (y := onlyIf _ (call' conditional))
      (echo_onlyIf h (readsToken_isAny _) fun _ => H.enter conditional (by decide) h)
      (fun _ _ _ _ h => echo_demand h (readsToken_isKind _)) fun _ _ _ h => hmissed (short_leavesAt _ _) h
  · exact echo_bind (x := onlyIf _ (call conditional)) (y := onlyIf _ (call' conditional))
      (ended_onlyIf h (declines_isAny short_memberBehind (by decide)))
      (fun _ _ _ _ h => echo_demand h (readsToken_isKind _)) fun _ _ _ h => hmissed short_memberBehind h

/-- An operand and what is attached to it.  The member is attached too. -/
theorem echo_projection (hp : p.Dotted) (H : Prolongs p call call') (h : p.Aligned w v) :
    p.Echoes (Through p.text EndOrMember) ((body parsing call projection).run w)
      ((body parsing call' projection).run v) :=
  echo_bind (H.enter disjunction (by decide) h) (fun _ _ _ _ h => echo_arrow hp H h)
    fun _ _ _ h => ended_onlyIf h (declines_isKind (short_leavesAt _ disjunction) (by decide))

/-- What is known of the operator of a containment is its kind and its wording. -/
theorem echo_containmentOperator (hp : p.Dotted) {operator operator' : Token}
    (hkind : operator'.kind = operator.kind) (htext : operator'.text = operator.text)
    (h : p.Aligned w v) : p.Echoes (fun _ => EndOrMember) ((containmentOperator operator).run w)
      ((containmentOperator operator').run v) := by
  refine echo_bind (K := fun _ _ => False) (x := onlyIf _ _) (y := onlyIf _ _) ?_
    (fun _ _ _ _ h => (echo_advance hp h).imp short_memberBehind) fun _ _ _ h => h.beyond.elim
  rw [run_onlyIf, run_onlyIf, hkind, htext]
  split
  · refine echo_bind (echo_advance hp h) (fun _ _ _ _ h => ?_) fun _ _ _ h => ?_
    · exact echo_ifLook h (readsToken_isWord "in") (fun _ => echo_ok () h)
        fun _ => echo_error h.stacked rfl
    · exact ended_ifLook h (declines_isWord short_memberBehind "in") (echo_error h.stacked rfl)
  · exact echo_ok () h

/-- An element of a list has a comma or a parenthesis after it, so the text is not over there. -/
theorem echo_listElement (hp : p.Dotted) (H : Prolongs p call call') {operator operator' : Token}
    (h : p.Aligned w v) : p.Echoes K ((listElement call operator).run w)
      ((listElement call' operator').run v) := by
  refine echo_bind (echo_advance hp h) (fun _ _ _ _ h => ?_)
    fun _ _ _ h => (missing_bind (H.opens (by decide)) _ _).echoes short_memberBehind h
  refine echo_bind (H.enter unary (by decide) h) (fun _ _ _ _ h => ?_) fun _ w v h => ?_
  · exact echo_ifLook h (readsToken_isKind .finish) (fun _ => echo_error h.stacked rfl) fun _ => echo_ok () h
  · -- The operand has taken the member, so that both texts are over.
    have hw : w.cursor.isKind .finish = true := h.finished
    have hv : v.cursor.isKind .finish = true := h.beyond.2
    show p.Echoes K ((if w.cursor.isKind .finish then failAt _ _ else pure () : Locator Unit).run w)
      ((if v.cursor.isKind .finish then failAt _ _ else pure () : Locator Unit).run v)
    rw [hw, hv]
    exact echo_error h.stacked rfl

/-- The text may be over after the operand of a containment or after its list. -/
theorem echo_container (hp : p.Dotted) (H : Prolongs p call call') (h : p.Aligned w v) :
    p.Echoes (Through p.text EndOrMember) ((container call).run w) ((container call').run v) := by
  have hclose : ReadsToken fun c => !c.isKind .closeParen := fun c d hkind htext => by
    simp only [readsToken_isKind _ c d hkind htext]
  refine echo_bind (x := containmentOperator w.cursor.current) (y := containmentOperator v.cursor.current)
    (echo_containmentOperator hp (p.kind_eq h.alike) (p.text_eq h.alike) h) (fun _ w' v' _ h => ?_)
    fun _ w' v' h => ?_
  · refine echo_kind h ?_
    -- A parenthesis opens a list, in which the text is not over; anything else is one operand.
    split
    · refine echo_bind (K := fun _ _ => False) ?_ (fun _ w v hrun h => ?_) fun _ _ _ h => h.beyond.elim
      · exact echo_repeatWhile (K := fun _ _ => False) hp hclose (H.rounds {} (.elements _))
          (fun _ _ h _ => echo_listElement hp H h) (fun _ _ _ _ _ h => h.beyond.elim) h
      · -- The loop has stopped at the closing parenthesis.
        have hkind : w.cursor.isKind .closeParen = true := by simpa using test_of_repeatWhile hrun
        refine (echo_advance hp h).imp fun _ _ => MemberBehind.through ?_
        rw [kind_of_isKind hkind]
        decide
    · exact (H.enter operand (by decide) h).imp fun _ _ hd => ⟨hd.1, .inl hd.2⟩
    · exact echo_error h.stacked rfl
  · -- Neither a list nor an operand is there.
    have hw : w'.cursor.current.kind = .finish := Token.isFinish_iff.1 h.finished
    rw [run_kind hw]
    rcases h.beyond.kind_eq with hv | hv <;> rw [run_kind hv] <;> exact echo_error h.stacked rfl

/-- Neither the end of the text nor a dot starts a containment. -/
theorem declines_startsContainment (hK : Short K) : Declines startsContainment K := by
  refine ⟨fun _ _ hc _ => startsContainment_finish hc, fun c d hd => ?_⟩
  rcases hK c d hd with hd | hd
  · exact startsContainment_finish hd
  · simp [startsContainment, Cursor.isOneOf, hd.dot]

/-- An operand, and as long as `in` follows a list or a sequence. -/
theorem echo_containment (hp : p.Dotted) (H : Prolongs p call call') (h : p.Aligned w v) :
    p.Echoes (Through p.text EndOrMember) ((body parsing call containment).run w)
      ((body parsing call' containment).run v) := by
  have htest : Declines startsContainment (Through p.text EndOrMember) :=
    declines_startsContainment fun _ _ hd => hd.2
  refine echo_bind ((H.enter bitwise (by decide) h).imp fun _ _ hd => ⟨hd.1, .inl hd.2⟩)
    (fun _ _ _ _ h => ?_) fun _ _ _ h => ended_repeatWhile htest h
  exact echo_repeatWhile hp readsToken_startsContainment (H.rounds parsing .containments)
    (fun _ _ h _ => echo_container hp H h) (fun _ _ k _ hk h => ended_loop htest k (by omega) h) h

/-! ## §4. Operands. -/

/-- What a prefix operator is followed by.  Its operand is opened again where the operator stands. -/
theorem echo_operated (H : Prolongs p call call') {operator operator' : Token}
    (hkind : operator'.kind = operator.kind) (hplace : p.place operator.start operator'.start)
    (hstart : operator.start ≤ w.cursor.current.start) (h : p.Aligned w v) :
    p.Echoes (Through p.text AtEnd) ((operated call operator).run w) ((operated call' operator').run v) := by
  show p.Echoes _ ((if operator.kind = .minus && w.cursor.current.kind.isNumber then (do
      replace (w.cursor.current.negated operator)
      call operand) else call unary : Locator Unit).run w)
    ((if operator'.kind = .minus && v.cursor.current.kind.isNumber then (do
      replace (v.cursor.current.negated operator')
      call' operand) else call' unary : Locator Unit).run v)
  rw [hkind, p.kind_eq h.alike]
  split
  · exact H.enter operand (by decide) ⟨paired_negated h.toPaired hplace hstart, h.depth_eq⟩
  · exact H.enter unary (by decide) h

/-- After an operator of one operand, neither the end of the text nor the member is a number. -/
theorem missing_operated (hunary : p.Missing (call unary) (call' unary)) (operator operator' : Token) :
    p.Missing (operated call operator) (operated call' operator') := by
  have hread : ∀ {call : Rule → Locator Unit} {operator : Token} {w : Walk (List Nat)}, EndOrMember w.cursor →
      (operated call operator).run w = (call unary).run w := by
    intro call operator w hw
    have hnumber : w.cursor.current.kind.isNumber = false := by rcases hw.kind_eq with h | h <;> rw [h] <;> rfl
    show (if operator.kind = .minus && w.cursor.current.kind.isNumber then (do
      replace (w.cursor.current.negated operator)
      call operand) else call unary : Locator Unit).run w = _
    rw [hnumber, Bool.and_false]
    rfl
  intro w v h
  rw [hread (.inl h.finished), hread h.beyond]
  exact hunary h

/-- Prefix operators, or an operand without any. -/
theorem echo_unary (hp : p.Dotted) (H : Prolongs p call call') (h : p.Aligned w v) :
    p.Echoes (Through p.text AtEnd) ((body parsing call unary).run w) ((body parsing call' unary).run v) := by
  refine echo_nested h fun h => echo_ifLook h readsToken_isSign (fun _ => ?_)
    fun _ => H.enter operand (by decide) h
  obtain ⟨past, hstands⟩ := p.stands h.alike
  refine echo_bind (x := advance) (y := advance) (echo_advance hp h) (fun _ w' v' hrun h' => ?_)
    fun _ _ _ h' => (missing_operated (H.opens (by decide)) _ _).echoes short_memberBehind h'
  exact echo_operated H (p.kind_eq h.alike) (p.start_eq h.alike)
    (Nat.le_of_lt (start_lt_of_advance hstands (h.isFinish hp) hrun).2) h'

/-- What is attached is a member or an element. -/
theorem echo_attachment (hp : p.Dotted) (H : Prolongs p call call') (h : p.Aligned w v) :
    p.Echoes (Through p.text EndOrMember) ((attachment call).run w) ((attachment call').run v) := by
  refine echo_kind h ?_
  split
  · exact echo_bind (echo_advance hp h) (fun _ _ _ _ h => H.enter member (by decide) h)
      fun _ _ _ h => H.misses.echoes short_memberBehind h
  · exact echo_error h.stacked rfl
  · exact H.enter elementAccess (by decide) h

/-- **The member is attached to the operand** at the end of the first text. -/
theorem takes_attachments (H : Prolongs p call call') (hv : EndOrMember v.cursor) {k : Nat} (hk : 1 < k) :
    Takes (repeatUpTo (whileStep isAttached (attachment call')) k ()) v := by
  obtain ⟨k, rfl⟩ := Nat.exists_eq_add_of_le' hk
  rcases hv with hv | hv
  · exact ⟨v.cursor, run_loop_of_not _ (k + 1) (isAttached_finish hv), hv⟩
  · obtain ⟨c, hrun, hc⟩ := H.attaches hv
    have hattached : isAttached v.cursor = true := by simp [isAttached, Cursor.isAny, hv.dot]
    have hattachment : (attachment call').run v = .ok () { v with cursor := c } := by
      rw [attachment, run_kind hv.dot]
      exact hrun
    exact ⟨c, run_loop_once k hattached hattachment (isAttached_finish hc), hc⟩

/-- What is attached to an operand.  Where the text is over the longer one takes the member here. -/
theorem echo_attached (hp : p.Dotted) (H : Prolongs p call call') (h : p.Aligned w v) :
    p.Echoes (Through p.text AtEnd) ((attached call).run w) ((attached call').run v) := by
  refine echo_repeatWhile hp (readsToken_isAny _) (H.rounds {} .attachments)
    (fun _ _ h _ => echo_attachment hp H h) ?_ h
  intro w v k k' hk h
  -- The first loop stops at the end of its text, and the second one has the member for its last round.
  rw [run_loop_of_not _ k (isAttached_finish h.finished)]
  exact echo_of_takes h (takes_attachments H h.beyond.2 (by omega)) fun _ hd => ⟨h.beyond.1, hd⟩

/-- Where the text is over, the rule has nothing to attach in it, and the member in the longer one. -/
theorem ended_attached (H : Prolongs p call call') (h : p.Ended (Through p.text EndOrMember) w v) :
    p.Echoes (Through p.text AtEnd) ((attached call).run w) ((attached call').run v) := by
  have htakes : Takes (attached call') v := takes_attachments (k := v.cursor.size + 2) H h.beyond.2 (by omega)
  rw [attached, run_repeatWhile_of_not _ (isAttached_finish h.finished)]
  exact echo_of_takes h htakes fun _ hd => ⟨h.beyond.1, hd⟩

/-- An operand is opened, read and closed again, with what is attached to it. -/
theorem echo_operand (hp : p.Dotted) (H : Prolongs p call call') (h : p.Aligned w v) :
    p.Echoes (Through p.text AtEnd) ((body parsing call operand).run w) ((body parsing call' operand).run v) := by
  have hrestored := restores_bind (H.restores primary) fun _ => restores_attached H.restores
  have hinner : p.Echoes (Through p.text AtEnd)
      ((do call primary; attached call : Locator Unit).run (opened w))
      ((do call' primary; attached call' : Locator Unit).run (opened v)) :=
    echo_bind (H.enter primary (by decide) ⟨paired_opened h.toPaired, h.depth_eq⟩)
      (fun _ _ _ _ h => echo_attached hp H h) fun _ _ _ h => ended_attached H h
  rw [run_operand, run_operand]
  refine echo_bind hinner (fun _ w' v' hrun h' => ?_) fun _ w' v' h' => ?_
  · exact echo_ok () ⟨paired_closed h'.toPaired ((hrestored (opened w)).ok hrun).closed, h'.depth_eq⟩
  · -- Both texts are over, so that the operand stays open in both.
    have hw : (closed w').held = w'.held := if_pos h'.finished
    have hv : (closed v').held = v'.held := if_pos h'.beyond.2
    have hclosed : p.Ended (Through p.text AtEnd) (closed w') (closed v') := by
      refine ⟨h'.finished, h'.reached, h'.beyond, ?_, h'.depth_eq⟩
      rw [hw, hv]
      exact h'.stacked
    exact echo_ended () hclosed

/-- A literal, a name, a creation or an expression in parentheses.  What is none of them fails in both texts.
-/
theorem echo_primary (hp : p.Dotted) (H : Prolongs p call call') (h : p.Aligned w v) :
    p.Echoes (Through p.text EndOrMember) ((body parsing call primary).run w)
      ((body parsing call' primary).run v) := by
  -- A number is no question mark, so that the text may be over behind it.
  have hnumber : w.cursor.current.kind.isNumber = true →
      p.Echoes (Through p.text EndOrMember) ((advance : Locator Unit).run w) ((advance : Locator Unit).run v) := by
    intro hnumber
    refine (echo_advance hp h).imp fun _ _ => MemberBehind.through ?_
    intro hquestion
    rw [hquestion] at hnumber
    cases hnumber
  refine echo_kind h ?_
  split
  · exact echo_ifLook h (readsToken_isWord "new") (fun _ => H.enter creation (by decide) h)
      fun _ => H.enter member (by decide) h
  · rename_i hk
    exact H.echoes (r := text) (fun _ => hk) h
  · rename_i hk
    exact hnumber (by rw [hk]; rfl)
  · rename_i hk
    exact hnumber (by rw [hk]; rfl)
  · exact H.enter parenthesized (by decide) h
  · exact echo_error h.stacked rfl

/-! ## §5. Names. -/

/-- The first walk does nothing more after a name at the end of the text; the second one takes the member
into a chain of names. -/
theorem ended_afterName (H : Prolongs p call call') (h : p.Ended (Through p.text LastMember) w v) :
    p.Echoes (Through p.text EndOrMember) ((afterName call).run w) ((afterName call').run v) := by
  have hfirst : (afterName call).run w = .ok () w := by
    have hkind : w.cursor.current.kind = .finish := Token.isFinish_iff.1 h.finished
    exact run_afterName_of_not (by simp [hkind])
  obtain ⟨c, hrun, hc⟩ := H.chains h.beyond.2
  have hsecond : Takes (afterName call') v := by
    refine ⟨c, ?_, hc⟩
    show (if v.cursor.isKind .arrow then _ else (do
      onlyIf isJoint (call' nameChain)
      onlyIf (fun c => c.isKind .openParen) (call' argumentList)) : Locator Unit).run v = _
    rw [h.beyond.2.isKind (by decide)]
    show ((onlyIf isJoint (call' nameChain)).run v).andThen _ = _
    rw [run_onlyIf, if_pos (by simp [isJoint, Cursor.isAny, h.beyond.2.dot]), hrun]
    exact run_onlyIf_of_not (isKind_finish (by decide) hc)
  rw [hfirst]
  exact echo_of_takes h hsecond fun _ hd => ⟨h.beyond.1, .inl hd⟩

/-- After a name stands a lambda, or arguments, or nothing. -/
theorem echo_afterName (hp : p.Dotted) (H : Prolongs p call call') (h : p.Aligned w v) :
    p.Echoes (Through p.text EndOrMember) ((afterName call).run w) ((afterName call').run v) := by
  refine echo_ifLook h (readsToken_isKind _) (fun _ => H.advance hp conditional (by decide) h) fun _ => ?_
  refine echo_bind (x := onlyIf isJoint (call nameChain)) (y := onlyIf isJoint (call' nameChain))
    (echo_onlyIf h (readsToken_isAny _) fun _ => H.enter nameChain (by decide) h)
    (fun _ _ _ _ h => ?_) fun _ _ _ h =>
      ended_onlyIf h (declines_isKind (short_leavesAt _ nameChain) (by decide))
  exact echo_onlyIf h (readsToken_isKind _) fun _ => H.enter argumentList (by decide) h

/-- After a dot there is a name, and what may follow one. -/
theorem echo_member (hp : p.Dotted) (H : Prolongs p call call') (h : p.Aligned w v) :
    p.Echoes (Through p.text EndOrMember) ((body parsing call member).run w)
      ((body parsing call' member).run v) := by
  refine echo_demandThen h (readsToken_isKind _) fun hname => ?_
  have hreword : p.Aligned { w with cursor := w.cursor.reword (plainName w.cursor.current.text) }
      { v with cursor := v.cursor.reword (plainName v.cursor.current.text) } :=
    ⟨⟨p.replace h.alike rfl (Nat.le_refl _) (p.kind_eq h.alike)
      (congrArg plainName (p.text_eq h.alike)) (p.start_eq h.alike), h.stacked⟩, h.depth_eq⟩
  refine echo_bind (x := advance) (y := advance) (echo_advance hp hreword)
    (fun _ _ _ _ h => echo_afterName hp H h) fun _ _ _ h => ended_afterName H (h.imp fun _ _ hd => ?_)
  refine ⟨(hd.through ?_).1, hd.1⟩
  show w.cursor.current.kind ≠ .question
  rw [kind_of_isKind hname]
  decide

/-- What joins names is no question mark. -/
theorem through_of_joint {c d : Cursor} (hw : isJoint w.cursor = true)
    (h : MemberBehind p.text w.cursor.current.kind c d) : Through p.text LastMember c d := by
  refine ⟨(h.through ?_).1, h.1⟩
  intro hquestion
  rw [isJoint, Cursor.isAny, hquestion] at hw
  cases hw

/-- A dot or a plus, with the name after it. -/
theorem echo_link (hp : p.Dotted) (h : p.Aligned w v) (hw : isJoint w.cursor = true) :
    p.Echoes (Through p.text LastMember) ((do advance; linkedName : Locator Unit).run w)
      ((do advance; linkedName : Locator Unit).run v) := by
  refine echo_bind (echo_advance hp h) (fun _ w v _ h => ?_) fun _ _ _ h => ?_
  · refine echo_onlyIf h (readsToken_isKind _) fun hname => (echo_advance hp h).imp fun _ _ hd => ?_
    refine ⟨(hd.through ?_).1, hd.1⟩
    rw [kind_of_isKind hname]
    decide
  · exact ended_onlyIf (h.imp fun _ _ => through_of_joint hw)
      (declines_isKind (fun _ _ hd => .inr hd.2) (by decide))

/-- Past the dot of the member, a rule takes its name. -/
theorem takes_name (hv : LastMember v.cursor) {x : Locator Unit}
    (hx : ∀ u : Walk (List Nat), u.cursor.current.kind = .identifier → x.run u = advance.run u) :
    Takes (do advance; x) v := by
  obtain ⟨e, f, he, hname, hf, hover⟩ := hv.name
  refine ⟨f, ?_, hover⟩
  rw [run_bind, run_advance he]
  exact (hx _ hname).trans (run_advance hf)

/-- **A loop over names takes the member**, if it takes one name after the other. -/
theorem takes_names (hv : LastMember v.cursor) {x : Locator Unit}
    (hx : ∀ u : Walk (List Nat), u.cursor.current.kind = .identifier → x.run u = advance.run u) {k : Nat}
    (hk : 1 < k) : Takes (repeatUpTo (whileStep isJoint (do advance; x)) k ()) v := by
  obtain ⟨k, rfl⟩ := Nat.exists_eq_add_of_le' hk
  obtain ⟨c, hrun, hc⟩ := takes_name hv hx
  refine ⟨c, run_loop_once k ?_ hrun (isAny_finish (by decide) hc), hc⟩
  simp [isJoint, Cursor.isAny, hv.dot]

/-- On a word, the name of a chain is just gone past. -/
theorem run_linkedName {u : Walk (List Nat)} (hu : u.cursor.current.kind = .identifier) :
    linkedName.run u = advance.run u := by
  rw [linkedName, run_onlyIf, if_pos (by simp [Cursor.isKind, hu])]

/-- On a word, a demand for one is met. -/
theorem run_expectName {cause : Cause} {u : Walk (List Nat)} (hu : u.cursor.current.kind = .identifier) :
    (expect .identifier cause : Locator Unit).run u = advance.run u := by
  have hdemand : (require .identifier cause : Locator Unit).run u = .ok () u := by
    rw [require, run_demand, if_pos (by simp [Cursor.isKind, hu])]
  exact run_bind_of_ok hdemand

/-- **Names with dots and pluses between them**, of which the last one may be the member. -/
theorem echo_names (hp : p.Dotted) {x : Locator Unit} (hrounds : RoundsConsume (whileStep isJoint do advance; x))
    (hx : ∀ u : Walk (List Nat), u.cursor.current.kind = .identifier → x.run u = advance.run u)
    (hstep : ∀ w v, p.Aligned w v → isJoint w.cursor = true →
      p.Echoes (Through p.text LastMember) ((do advance; x : Locator Unit).run w)
        ((do advance; x : Locator Unit).run v))
    (h : p.Aligned w v) : p.Echoes (Through p.text AtEnd) ((repeatWhile isJoint (do advance; x)).run w)
      ((repeatWhile isJoint (do advance; x)).run v) := by
  refine echo_repeatWhile hp (readsToken_isAny _) hrounds hstep (fun w v k k' hk h => ?_) h
  -- A chain that is open at the end of the text is where the member goes.
  rw [run_loop_of_not _ k (isAny_finish (by decide) h.finished)]
  exact echo_of_takes h (takes_names h.beyond.2 hx (by omega)) fun _ hd => ⟨h.beyond.1, hd⟩

/-- Names between dots.  Where the text is over the rule has the longer walk go on with the member. -/
theorem echo_nameChain (hp : p.Dotted) (H : Prolongs p call call') (h : p.Aligned w v) :
    p.Echoes (Through p.text EndOrMember) ((body parsing call nameChain).run w)
      ((body parsing call' nameChain).run v) := by
  have hshort : Short (Through p.text AtEnd) := fun _ _ hd => .inl hd.2
  refine echo_bind (echo_names hp (H.rounds parsing .names) (fun _ => run_linkedName)
      (fun _ _ h hw => echo_link hp h hw) h)
    (fun _ _ _ _ h => ?_) fun _ _ _ h =>
      (ended_onlyIf h (declines_isKind hshort (by decide))).imp fun _ _ hd => ⟨hd.1, .inl hd.2⟩
  exact echo_onlyIf h (readsToken_isKind _) fun _ => H.enter member (by decide) h

/-! ## §6. Brackets and arguments. -/

/-- What is within brackets starts with an operand, and where a text is over within them the closing bracket
is missing. -/
theorem echo_bracketed (hp : p.Dotted) {opening closing : TokenKind} {cause cause' : Cause}
    {x y : Locator Unit} (hclosing : closing ≠ .dot ∧ closing ≠ .finish ∧ closing ≠ .question)
    (h : p.Aligned w v) (hopens : p.Missing x y) (hK : Short K)
    (hinner : ∀ w v, p.Aligned w v → p.Echoes K (x.run w) (y.run v)) :
    p.Echoes (Through p.text EndOrMember)
      ((do expect opening cause; x; expect closing cause' : Locator Unit).run w)
      ((do expect opening cause; y; expect closing cause' : Locator Unit).run v) := by
  refine echo_bind (echo_expect hp h) (fun _ w v _ h => ?_)
    fun _ _ _ h => (missing_bind hopens _ _).echoes short_memberBehind h
  refine echo_bind (hinner w v h) (fun _ _ _ _ h => ?_)
    fun _ _ _ h => ended_expect h hK ⟨hclosing.1, hclosing.2.1⟩
  exact (echo_expect hp h).imp fun _ _ => MemberBehind.through hclosing.2.2

/-- Arguments in parentheses, or none. -/
theorem echo_argumentList (hp : p.Dotted) (H : Prolongs p call call') (h : p.Aligned w v) :
    p.Echoes (Through p.text EndOrMember) ((body parsing call argumentList).run w)
      ((body parsing call' argumentList).run v) := by
  refine echo_bracketed hp (by decide) h (missing_onlyIf (fun _ hc => ?_) (H.opens (by decide)))
    (short_leavesAt p.text arguments) fun _ _ h => ?_
  · rw [hc.isKind (by decide) (by decide)]
    rfl
  · exact echo_onlyIf h (fun c d hkind htext => by simp only [readsToken_isKind _ c d hkind htext])
      fun _ => H.enter arguments (by decide) h

/-- At the end of a text there is no wording. -/
theorem text_of_reaches {text : List Char} {past : List TokenKind} {c : Cursor} (h : Reaches text past c)
    (hc : AtEnd c) : c.current.text = "" := by
  obtain ⟨-, -, read, lexeme, hd⟩ := h.split
  have hkind : c.current.kind = .finish := Token.isFinish_iff.1 hc
  rw [hd.lexeme_eq, hd.finish_iff.1 hkind]

/-- The word `out` with what is discarded.  Where the text is over after `out`, nothing has been discarded in
either text. -/
theorem echo_discardedOut (hp : p.Dotted) (h : p.Aligned w v) :
    p.Echoes (fun _ => EndOrMember) ((discardedOut : Locator Bool).run w)
      ((discardedOut : Locator Bool).run v) := by
  refine echo_ifLook h (readsToken_isOneOf _ _) (fun _ => ?_) fun _ => echo_ok false h
  refine echo_bind (echo_advance hp h) (fun _ _ _ _ h => ?_) fun _ _ _ h => ended_demandThen h ⟨?_, ?_⟩
  · refine echo_demandThen h (fun c d _ htext => by simp only [htext]) fun _ => ?_
    exact echo_bind (echo_advance hp h) (fun _ _ _ _ h => echo_ok true h)
      fun _ _ _ h => echo_ended true (h.imp short_memberBehind)
  · rintro c d hc ⟨-, past, hreaches⟩
    rw [text_of_reaches hreaches hc]
    rfl
  · rintro c d ⟨hmember, -⟩
    rw [hmember.text]
    rfl

/-- An argument that is discarded, or an expression. -/
theorem echo_argument (hp : p.Dotted) (H : Prolongs p call call') (h : p.Aligned w v) :
    p.Echoes (fun _ => EndOrMember) ((body parsing call argument).run w) ((body parsing call' argument).run v) := by
  refine echo_bind (echo_discardedOut hp h) (fun found _ _ _ h => ?_) fun found _ _ h => ?_ <;> cases found
  · exact (H.enter conditional (by decide) h).imp (short_leavesAt _ _)
  · exact echo_ok () h
  · exact (H.opens (r := conditional) (by decide)).echoes (fun _ _ hd => hd) h
  · exact echo_ended () h

/-- Arguments between commas. -/
theorem echo_arguments (hp : p.Dotted) (H : Prolongs p call call') (h : p.Aligned w v) :
    p.Echoes (fun _ => EndOrMember) ((body parsing call arguments).run w)
      ((body parsing call' arguments).run v) := by
  have hcomma : Declines (fun c => c.isKind .comma) fun _ => EndOrMember :=
    declines_isKind (fun _ _ hd => hd) (by decide)
  refine echo_bind (H.enter argument (by decide) h) (fun _ _ _ _ h => ?_) fun _ _ _ h => ended_repeatWhile hcomma h
  exact echo_repeatWhile hp (readsToken_isKind _) (H.rounds parsing (.links (by decide) _))
    (fun _ _ h _ => H.advance hp argument (by decide) h) (fun _ _ k _ hk h => ended_loop hcomma k (by omega) h) h

/-! ## §7. Creations. -/

/-- The dots and words of a dotted name. -/
def isDotted (c : Cursor) : Bool := c.isAny [.dot, .identifier]

/-- What a dotted name goes past does not depend on what has been read of it. -/
theorem run_dotted (k : Nat) (name : String) (w : Walk (List Nat)) :
    (do let _ ← repeatUpTo dottedStep k name : Locator Unit).run w =
      (repeatUpTo (whileStep isDotted advance) k ()).run w := by
  -- By induction on the rounds: each makes the same step, whatever the name is by then.
  induction k generalizing name w with
  | zero => rfl
  | succ k ih =>
    -- Whether there is another round is told by the token.
    have hstep : (dottedStep name).run w = (if isDotted w.cursor then (do
        advance
        pure (true, name ++ w.cursor.current.text)) else pure (false, name) : Locator (Bool × String)).run w := by
      show (if w.cursor.current.kind = .dot || w.cursor.current.kind = .identifier then (do
        advance
        pure (true, name ++ w.cursor.current.text)) else pure (false, name) : Locator (Bool × String)).run w = _
      simp [isDotted, Cursor.isAny]
    show (((dottedStep name).run w).andThen _).andThen _ = _
    rw [hstep]
    cases ht : isDotted w.cursor with
    | false =>
      rw [run_loop_of_not advance k ht]
      rfl
    | true =>
      rw [run_loop_of_test advance k ht]
      rw [if_pos rfl, run_bind, run_bind]
      cases advance.run w with
      | error failure u => rfl
      | ok _ u => exact ih (name ++ w.cursor.current.text) u

/-- The name of an alias, without what it is. -/
theorem aliasName_eq (dotted : Bool) (w : Walk (List Nat)) :
    (do let _ ← aliasName dotted : Locator Unit).run w = (do
      require .identifier .identifierExpected
      if dotted then repeatWhile isDotted advance else advance : Locator Unit).run w := by
  -- How the name is worded is of no account to where the walk comes.
  have hname : ∀ x : Locator String, (do let _ ← plainName <$> x : Locator Unit).run w =
      (do let _ ← x : Locator Unit).run w := by
    intro x
    show ((x.run w).andThen _).andThen _ = (x.run w).andThen _
    cases x.run w <;> rfl
  unfold aliasName
  show (((require .identifier .identifierExpected : Locator Unit).run w).andThen _).andThen _ =
    ((require .identifier .identifierExpected : Locator Unit).run w).andThen _
  -- The demand is the same in both forms, and what follows it too.
  rw [require, run_demand]
  split
  · cases dotted with
    | false =>
      show ((advance.run w).andThen _).andThen _ = advance.run w
      cases advance.run w <;> rfl
    | true =>
      refine (hname dottedName).trans ?_
      show ((repeatStep dottedStep "").run w).andThen _ = (repeatWhile isDotted advance).run w
      rw [run_repeatStep, run_repeatWhile]
      exact run_dotted _ "" w
  · rfl

/-- A dotted name takes the member in two steps. -/
theorem takes_dotted (hv : LastMember v.cursor) {k : Nat} (hk : 2 < k) :
    Takes (repeatUpTo (whileStep isDotted advance) k ()) v := by
  obtain ⟨k, rfl⟩ := Nat.exists_eq_add_of_le' hk
  obtain ⟨e, f, he, hname, hf, hover⟩ := hv.name
  refine ⟨f, ?_, hover⟩
  have hdot : isDotted v.cursor = true := by simp [isDotted, Cursor.isAny, hv.dot]
  have hword : isDotted { v with cursor := e }.cursor = true := by simp [isDotted, Cursor.isAny, hname]
  rw [run_loop_of_test advance _ hdot, run_bind_of_ok (run_advance he)]
  exact run_loop_once k hword (run_advance hf) (isAny_finish (by decide) hover)

/-- The name after `as` may be dotted, in which case it takes the member too. -/
theorem echo_alias (hp : p.Dotted) (dotted : Bool) (h : p.Aligned w v) :
    p.Echoes (fun _ => EndOrMember) ((do let _ ← aliasName dotted : Locator Unit).run w)
      ((do let _ ← aliasName dotted : Locator Unit).run v) := by
  rw [aliasName_eq, aliasName_eq]
  refine echo_demandThen h (readsToken_isKind _) fun _ => ?_
  cases dotted with
  | false => exact (echo_advance hp h).imp short_memberBehind
  | true =>
    have hrounds : RoundsConsume (whileStep isDotted (advance : Locator Unit)) := roundsConsume_while fun _ hw =>
      consumesFrom_advance (isFinish_of_test (fun _ => isAny_finish (by decide)) hw)
    refine echo_repeatWhile (K := fun _ => LastMember) hp (readsToken_isAny _) hrounds
      (fun _ _ h _ => (echo_advance hp h).imp fun _ _ hd => hd.1) (fun w v k k' hk h => ?_) h
    rw [run_loop_of_not _ k (isAny_finish (by decide) h.finished)]
    exact echo_of_takes h (takes_dotted h.beyond (by omega)) fun _ => .inl

/-- A member of what is made, which may have a name. -/
theorem echo_createdMember (hp : p.Dotted) (H : Prolongs p call call') (isArray : Bool)
    (h : p.Aligned w v) : p.Echoes (fun _ => EndOrMember) ((createdMember parsing call isArray).run w)
      ((createdMember parsing call' isArray).run v) := by
  have hword : Declines (fun c => !isArray && c.isWord "as") fun _ => EndOrMember := by
    refine ⟨fun _ _ hc _ => ?_, fun _ _ hd => ?_⟩
    · rw [isWord_finish hc, Bool.and_false]
    · rw [hd.isWord, Bool.and_false]
  refine echo_bind ((H.enter conditional (by decide) h).imp (short_leavesAt _ _)) (fun _ _ _ _ h => ?_)
    fun _ _ _ h => ended_onlyIf h hword
  refine echo_onlyIf h (fun c d hkind htext => by simp only [readsToken_isWord _ c d hkind htext])
    fun _ => ?_
  refine echo_bind (echo_advance hp h) (fun _ _ _ _ h => echo_alias hp _ h) fun _ _ _ h => ?_
  -- No name is there.
  rw [aliasName_eq, aliasName_eq]
  exact ended_demandThen h (declines_isKind short_memberBehind (by decide))

/-- At the end of a text a member of what `new` makes is missing. -/
theorem missing_createdRound (H : Prolongs p call call') (isArray : Bool) (a : Unit) :
    p.Missing (createdRound parsing call isArray a) (createdRound parsing call' isArray a) :=
  missing_ifLook (fun _ hc => hc.isAny (by decide) (by decide))
    (missing_bind (missing_bind (H.opens (by decide)) _ _) _ _)

/-- A comma may be missing. -/
theorem echo_comma (hp : p.Dotted) (h : p.Aligned w v) :
    p.Echoes (fun _ => EndOrMember) (comma.run w) (comma.run v) := by
  refine echo_ifLook h (readsToken_isKind _) (fun _ => ?_) fun _ => echo_ok _ h
  exact echo_bind (echo_advance hp h) (fun _ _ _ _ h => echo_ok _ h)
    fun _ _ _ h => echo_ended _ (h.imp short_memberBehind)

/-- Members of what is made, up to a bracket that is missing where the text is over. -/
theorem echo_createdMembers (hp : p.Dotted) (H : Prolongs p call call') (isArray : Bool)
    (h : p.Aligned w v) : p.Echoes (fun _ => EndOrMember) ((createdMembers parsing call isArray).run w)
      ((createdMembers parsing call' isArray).run v) := by
  rw [createdMembers_eq, createdMembers_eq]
  refine echo_repeatStep hp (H.rounds parsing (.createdMembers isArray)) (fun _ _ _ h => ?_)
    (fun a _ _ k k' hk h => ?_) () h
  · refine echo_ifLook h (readsToken_isAny _) (fun _ => echo_ok _ h) fun _ => ?_
    refine echo_bind (echo_createdMember hp H isArray h) (fun _ _ _ _ h => echo_comma hp h) fun _ _ _ h => ?_
    exact ended_ifLook h (declines_isKind (fun _ _ hd => hd) (by decide)) (echo_ended _ h)
  · obtain ⟨k', rfl⟩ := Nat.exists_eq_add_of_le' (Nat.le_trans (Nat.le_add_left 1 (k + 2)) hk)
    exact (missing_repeatUpTo (missing_createdRound H isArray a) k k').echoes (fun _ _ hd => hd) h

/-- After the name of a type a bracket has to stand, so no text is over there. -/
theorem echo_createdType (hp : p.Dotted) (h : p.Aligned w v) :
    p.Echoes K (createdType.run w) (createdType.run v) := by
  have hrounds : RoundsConsume (whileStep isJoint createdTypePart) := roundsConsume_while fun _ hw =>
    consumesFrom_advanceThen (isFinish_of_test (fun _ => isAny_finish (by decide)) hw) fun _ => steady_expect _ _
  -- A joint may be the last thing in the text, and then the member is the name after it.
  have hpart : ∀ w v, p.Aligned w v → p.Echoes (Through p.text LastMember) (createdTypePart.run w)
      (createdTypePart.run v) := by
    intro w v h
    refine echo_bind (echo_advance hp h) (fun _ _ _ _ h => (echo_expect hp h).imp fun _ _ hd => ?_)
      fun _ _ _ h => ended_expect h short_memberBehind (by decide)
    exact ⟨(hd.through (by decide)).1, hd.1⟩
  -- A bracket has to follow the name, and where the texts are over there is none.
  have hover : ∀ {w v}, p.Ended (fun _ => AtEnd) w v →
      p.Echoes K ((demand (fun c => c.isAny [.openParen, .openBracket, .openCurly]) .openParenExpected :
        Locator Unit).run w) ((demand (fun c => c.isAny [.openParen, .openBracket, .openCurly])
        .openParenExpected : Locator Unit).run v) :=
    fun h => ended_demand h (declines_isAny (fun _ _ => .inl) (by decide))
  refine echo_bind (echo_advance hp h) (fun _ w v _ h => ?_) fun _ w v h => ?_
  · exact echo_bind (x := repeatWhile isJoint createdTypePart) (y := repeatWhile isJoint createdTypePart)
      (echo_names hp hrounds (fun _ => run_expectName) (fun w v h _ => hpart w v h) h)
      (fun _ _ _ _ h => echo_demand h (readsToken_isAny _)) fun _ _ _ h => hover (h.imp fun _ _ hd => hd.2)
  · -- The member goes on with the name of the type.
    have htakes : Takes (repeatWhile isJoint createdTypePart) v :=
      takes_names (k := v.cursor.size + 2) h.beyond.1 (fun _ => run_expectName) (by omega)
    refine echo_bind (K := fun _ => AtEnd) (x := repeatWhile isJoint createdTypePart)
      (y := repeatWhile isJoint createdTypePart) ?_ (fun _ _ _ _ h => echo_demand h (readsToken_isAny _))
      fun _ _ _ h => hover h
    rw [run_repeatWhile_of_not _ (isAny_finish (by decide) h.finished)]
    exact echo_of_takes h htakes fun _ hd => hd

/-- After an empty pair of brackets a curly one has to stand. -/
theorem echo_arrayMark (hp : p.Dotted) (h : p.Aligned w v) :
    p.Echoes K (arrayMark.run w) (arrayMark.run v) := by
  refine echo_ifLook h (readsToken_isKind _) (fun _ => ?_) fun _ => echo_ok _ h
  refine echo_bind (echo_advance hp h) (fun _ _ _ _ h => ?_)
    fun _ _ _ h => ended_expectThen h short_memberBehind (by decide)
  refine echo_bind (echo_expect hp h) (fun _ _ _ _ h => ?_)
    fun _ _ _ h => ended_demandThen h (declines_isKind short_memberBehind (by decide))
  exact echo_demandThen h (readsToken_isKind _) fun _ => echo_ok _ h

/-- The word `new`, the name of a type, and arguments or members. -/
theorem echo_creation (hp : p.Dotted) (H : Prolongs p call call') (h : p.Aligned w v) :
    p.Echoes (Through p.text EndOrMember) ((body parsing call creation).run w)
      ((body parsing call' creation).run v) := by
  refine echo_bind (echo_advance hp h) (fun _ _ _ _ h => ?_)
    fun _ _ _ h => ended_demandThen h (declines_isAny short_memberBehind (by decide))
  refine echo_demandThen h (readsToken_isAny _) fun _ => ?_
  refine echo_bind (K := fun _ _ => False) (x := onlyIf _ createdType) (y := onlyIf _ createdType)
    (echo_onlyIf h (readsToken_isKind _) fun _ => echo_createdType hp h) (fun _ _ _ _ h => ?_)
    fun _ _ _ h => h.beyond.elim
  refine echo_bind (K := fun _ _ => False) (echo_arrayMark hp h) (fun isArray _ _ _ h => ?_)
    fun _ _ _ h => h.beyond.elim
  refine echo_bind (echo_advance hp h) (fun _ _ _ _ h => ?_) fun _ _ _ h => ?_
  · refine echo_bind (echo_createdMembers hp H isArray h) (fun _ _ _ _ h => ?_)
      fun _ _ _ h => ended_demandThen h (declines_isAny (fun _ _ hd => hd) (by decide))
    refine echo_demandThen h (readsToken_isAny _) fun hclosed => ?_
    refine (echo_advance hp h).imp fun _ _ => MemberBehind.through ?_
    intro hquestion
    rw [Cursor.isAny, hquestion] at hclosed
    cases hclosed
  -- Behind the bracket a member of what is made is missing, if the text is over there.
  · rw [createdMembers_eq, createdMembers_eq]
    exact (missing_bind (missing_repeatStep (missing_createdRound H isArray ())) _ _).echoes short_memberBehind h

/-! ## §8. Literals. -/

/-- Reading ahead moves neither walk. -/
theorem echo_lookAheadThen {f g : Unit → Locator Unit} (hp : p.Dotted) (h : p.Aligned w v)
    (hf : p.Echoes K ((f ()).run w) ((g ()).run v)) :
    p.Echoes K ((lookAhead >>= f).run w) ((lookAhead >>= g).run v) := by
  have hread : ∀ (w : Walk (List Nat)) {c : Cursor} (f : Unit → Locator Unit), w.cursor.next = .ok c →
      (lookAhead >>= f).run w =
        ((if c.isKind .question then (do let _ ← ofExcept c.next) else pure () : Locator Unit).run
          w).andThen f := by
    intro w c f hnext
    show (((ofExcept w.cursor.next).run w).andThen _).andThen f = _
    rw [hnext]
    rfl
  -- The first token is read in both texts, and the one behind a question mark as well.
  obtain ⟨c, hnext⟩ := hp.reads h.alike
  obtain ⟨d, hd, hcd⟩ := p.next_ok h.alike hnext
  rw [hread w f hnext, hread v g hd]
  rcases hcd with halike | hcross
  · rw [show d.isKind .question = c.isKind .question from
      readsToken_isKind .question c d (p.kind_eq halike) (p.text_eq halike)]
    cases c.isKind .question with
    | false => exact hf
    | true =>
      obtain ⟨c', hnext'⟩ := hp.reads halike
      obtain ⟨d', hd', -⟩ := p.next_ok halike hnext'
      rw [hnext', hd']
      exact hf
  · -- Only a question mark is looked past, and the text goes on with none.
    rw [isKind_finish (by decide) (p.finish_of_cross hcross),
      show d.isKind .question = false by simpa [Cursor.isKind] using p.question_of_cross hcross]
    exact hf

/-- What a literal stands for does not depend on the place. -/
theorem echo_valueThen (literal : String) {f g : String → Locator Unit} (hstacked : p.Stacked w.held v.held)
    (hf : ∀ value, p.Echoes K ((f value).run w) ((g value).run v)) :
    p.Echoes K ((literalValue parsing literal >>= f).run w)
      ((literalValue parsing literal >>= g).run v) := by
  rw [run_bind, run_bind, run_literalValue, run_literalValue]
  rcases value_congr parsing.dialect literal w.cursor.current.start v.cursor.current.start with
    ⟨value, hw, hv⟩ | ⟨cause, hw, hv⟩ <;> rw [hw, hv]
  · exact hf value
  · exact echo_error hstacked rfl

/-- Where no literal stands, no more of them are joined. -/
theorem run_literals_of_not (k : Nat) {joined : String}
    (hw : w.cursor.current.kind ≠ .stringLiteral) :
    (repeatUpTo literalStep (k + 1) joined).run w = .ok joined w := by
  show ((literalStep joined).run w).andThen _ = _
  rw [run_literalStep_of_not hw]
  rfl

/-- A literal more is joined. -/
theorem echo_literalStep (hp : p.Dotted) (joined : String) (h : p.Aligned w v) :
    p.Echoes (MemberBehind p.text .stringLiteral) ((literalStep joined).run w) ((literalStep joined).run v) := by
  show p.Echoes _ ((if w.cursor.current.kind = .stringLiteral then (do
      advance
      pure (true, joined ++ w.cursor.current.text)) else pure (false, joined) :
    Locator (Bool × String)).run w)
    ((if v.cursor.current.kind = .stringLiteral then (do
      advance
      pure (true, joined ++ v.cursor.current.text)) else pure (false, joined) :
    Locator (Bool × String)).run v)
  rw [p.kind_eq h.alike, p.text_eq h.alike]
  split
  · rename_i hliteral
    exact echo_bind (hliteral ▸ echo_advance hp h) (fun _ _ _ _ h => echo_ok _ h) fun _ _ _ h => echo_ended _ h
  · exact echo_ok _ h

/-- Neither the end of the text nor the member is a literal. -/
theorem ended_literals (k : Nat) {k' : Nat} (hk : 0 < k') (joined : String)
    (h : p.Ended (MemberBehind p.text .stringLiteral) w v) :
    p.Echoes (MemberBehind p.text .stringLiteral) ((repeatUpTo literalStep (k + 1) joined).run w)
      ((repeatUpTo literalStep k' joined).run v) := by
  have hw : w.cursor.current.kind = .finish := Token.isFinish_iff.1 h.finished
  obtain ⟨k', rfl⟩ := Nat.exists_eq_succ_of_ne_zero (Nat.ne_of_gt hk)
  rw [run_literals_of_not k (by simp [hw]), run_literals_of_not k' (by simp [h.beyond.1.dot])]
  exact echo_ended joined h

/-- Literals in a row.  The text may be over behind one. -/
theorem echo_adjacentLiterals (hp : p.Dotted) (H : Prolongs p call call') (first : String) (h : p.Aligned w v)
    (hw : w.cursor.current.kind = .stringLiteral) :
    p.Echoes (MemberBehind p.text .stringLiteral) ((adjacentLiterals first).run w)
      ((adjacentLiterals first).run v) := by
  refine echo_bind (hw ▸ echo_advance hp h) (fun _ w v _ h => ?_) fun _ w v h => ?_
  · exact echo_repeatStep hp (H.rounds {} .literals) (fun joined _ _ h => echo_literalStep hp joined h)
      (fun joined _ _ k _ hk h => ended_literals k (by omega) joined h) first h
  · rw [run_repeatStep, run_repeatStep]
    exact ended_literals _ (Nat.succ_pos _) first h

/-- Literals in a row, and what the text of them is read as. -/
theorem echo_text (hp : p.Dotted) (H : Prolongs p call call') (h : p.Aligned w v) (hw : w.cursor.current.kind = .stringLiteral) :
    p.Echoes (Through p.text EndOrMember) ((body parsing call text).run w) ((body parsing call' text).run v) := by
  refine echo_lookAheadThen hp h ?_
  show p.Echoes _ ((literalRest parsing w.cursor.current.text).run w)
    ((literalRest parsing v.cursor.current.text).run v)
  rw [p.text_eq h.alike]
  refine echo_valueThen _ h.stacked fun value => ?_
  split
  · split
    · exact echo_error h.stacked rfl
    · exact (echo_advance hp h).imp fun _ _ => MemberBehind.through (by simp [hw])
  · refine echo_bind (echo_adjacentLiterals hp H _ h hw) (fun joined _ _ _ h => ?_) fun joined _ _ h => ?_
    · exact echo_valueThen joined h.stacked fun _ => echo_ok () h
    · exact echo_valueThen joined h.stacked fun _ => echo_ended () (h.imp fun _ _ hd => hd.through (by decide))

/-! ## §9. Every rule. -/

/-- The bodies correspond if their calls do. -/
theorem echo_body (hp : p.Dotted) (H : Prolongs p call call') {r : Rule}
    (htext : r = text → w.cursor.current.kind = .stringLiteral) (h : p.Aligned w v) :
    p.Echoes (r.leavesAt p.text) ((body parsing call r).run w) ((body parsing call' r).run v) := by
  -- One case for each rule; those in brackets share their proof.
  cases r with
  | conditional => exact echo_conditional hp H h
  | coalescing => exact echo_coalescing hp H h
  | projection => exact echo_projection hp H h
  | disjunction | conjunction | bitwise | comparison | shift | sum | product =>
    exact echo_operators hp H rfl h
  | containment => exact echo_containment hp H h
  | unary => exact echo_unary hp H h
  | operand => exact echo_operand hp H h
  | primary => exact echo_primary hp H h
  | member => exact echo_member hp H h
  | nameChain => exact echo_nameChain hp H h
  | argumentList => exact echo_argumentList hp H h
  | arguments => exact echo_arguments hp H h
  | argument => exact echo_argument hp H h
  | elementAccess =>
    exact echo_bracketed hp (by decide) h (H.opens (by decide)) (short_leavesAt p.text arguments)
      fun _ _ h => H.enter arguments (by decide) h
  | creation => exact echo_creation hp H h
  | parenthesized =>
    exact echo_bracketed hp (by decide) h (H.opens (by decide)) (short_leavesAt p.text conditional)
      fun _ _ h => H.enter conditional (by decide) h
  | text => exact echo_text hp H h (htext rfl)

/-- Where there is no token, an operand is opened and nothing is read of it. -/
theorem missing_operand (H : Prolongs p call call') :
    p.Missing (body parsing call operand) (body parsing call' operand) := by
  intro w v h
  obtain ⟨past, hreached⟩ := h.reached
  have hopened : OpensNothing p.text (opened w) := congrArg some (hreached.start_of_finish h.finished)
  obtain ⟨failure, u, hrun, hopens⟩ := H.lacks (w := opened w) h.finished hopened
  have hfailed : (body parsing call operand).run w = .error failure u := by
    rw [run_operand]
    exact run_bind_of_error (run_bind_of_error hrun)
  rw [hfailed]
  exact stuck_opensNothing hopens

/-- An argument is missing as an expression is: neither the end of a text nor a dot starts one. -/
theorem missing_argument (H : Prolongs p call call') :
    p.Missing (body parsing call argument) (body parsing call' argument) := by
  -- Neither is a discarded argument there.
  have hout : ∀ {c : Cursor}, EndOrMember c → c.isOneOf outWords [] = false := by
    intro c hc
    rcases hc.kind_eq with h | h <;> simp [Cursor.isOneOf, h]
  intro w v h
  rw [run_body_argument (hout (.inl h.finished)), run_body_argument (hout h.beyond)]
  exact H.opens (by decide) h

/-- The bodies of rules that start with an operand miss it if their calls do. -/
theorem missing_body (H : Prolongs p call call') {r : Rule} (hr : r.opensOperand = true) :
    p.Missing (body parsing call r) (body parsing call' r) := by
  cases r with
  | conditional => exact missing_nested (missing_bind (H.opens (by decide)) _ _)
  | coalescing | projection | containment => exact missing_bind (H.opens (by decide)) _ _
  | disjunction | conjunction | bitwise | comparison | shift | sum | product | arguments =>
    exact missing_bind (H.opens (by decide)) _ _
  | unary =>
    refine missing_nested (missing_ifLook (fun c hc => ?_) (H.opens (by decide)))
    rw [isSign, hc.isAny (by decide) (by decide), hc.isWord]
    rfl
  | operand => exact missing_operand H
  | argument => exact missing_argument H
  | primary | member | nameChain | argumentList | elementAccess | creation | parenthesized | text => cases hr

/-- A member goes past its name, and nothing follows that. -/
theorem takes_member (hv : LastMember v.cursor) : Takes (do advance; body parsing call' member) v := by
  obtain ⟨e, f, he, hname, hf, hover⟩ := hv.name
  have hnext : (e.reword (plainName e.current.text)).next = e.next :=
    Cursor.next_congr rfl rfl rfl rfl (by simp [Token.isFinish, hname])
  have hkind : f.current.kind = .finish := Token.isFinish_iff.1 hover
  refine ⟨f, ?_, hover⟩
  rw [run_bind, run_advance he]
  show (body parsing call' member).run { v with cursor := e } = _
  rw [run_body_member (by simp [Cursor.isKind, hname]), run_bind, run_advance (hnext.trans hf)]
  exact run_afterName_of_not (by simp [hkind])

/-- A chain of names takes the member. -/
theorem takes_nameChain (hv : LastMember v.cursor) : Takes (body parsing call' nameChain) v := by
  obtain ⟨c, hrun, hc⟩ := takes_names hv (fun _ => run_linkedName) (k := v.cursor.size + 2) (by omega)
  refine ⟨c, ?_, hc⟩
  show ((repeatWhile isJoint (do advance; linkedName)).run v).andThen _ = _
  rw [run_repeatWhile, hrun]
  exact run_onlyIf_of_not (isKind_finish (by decide) hc)

/-- **The bodies correspond if their calls do**, in all respects. -/
theorem prolongs_body (hp : p.Dotted) (H : Prolongs p call call') :
    Prolongs p (body parsing call) (body parsing call') where
  echoes := echo_body hp H
  opens := missing_body H
  misses := missing_demandThen fun _ hc => hc.isKind (by decide) (by decide)
  lacks hw hopens := ⟨_, _, run_kind (Token.isFinish_iff.1 hw) _, hopens⟩
  restores := restores_body H.restores
  forward := forward_body H.forward
  attaches := takes_member
  chains := takes_nameChain

/-- A call beyond the budget: it opens an operand where the text is over, to which nothing corresponds, and
fails. -/
def astray (text : List Char) (_ : Rule) : Locator Unit := do
  hold fun _ starts => Text.byteSize text :: starts
  fail .tooDeep

/-- A call beyond the budget fails, and nothing has to correspond to it. -/
theorem stuck_astray (p : Pairing) (r : Rule) (w : Walk (List Nat)) (q : Walk.Outcome (List Nat) Unit) :
    p.Stuck ((astray p.text r).run w) q :=
  stuck_opensNothing rfl

/-- Since it fails, it restores whatever it should. -/
theorem restores_astray (text : List Char) (r : Rule) : Restores (astray text r) := by
  intro w
  refine Ensures.bind (Ensures.hold trivial trivial ?_) fun _ _ hv => .fail trivial hv
  exact ⟨rfl, List.suffix_cons _ _⟩

/-- It goes nowhere. -/
theorem forward_astray (text : List Char) : Forward (astray text) := by
  have hfails : ∀ r, Consumes (astray text r) := fun _ _ _ _ hrun => by cases hrun
  exact ⟨fun _ _ => steady_bind (steady_hold _) fun _ => steady_fail _, fun _ => hfails _, fun _ => hfails _ _⟩

/-- Calls beyond the budget correspond to those of all bodies. -/
theorem prolongs_astray : Prolongs p (astray p.text) (body parsing call') where
  echoes _ _ := (stuck_astray p _ _ _).echoes
  opens _ _ _ _ := stuck_astray p _ _ _
  misses _ _ _ := stuck_astray p _ _ _
  lacks _ _ := ⟨_, _, rfl, rfl⟩
  restores := restores_astray p.text
  forward := forward_astray p.text
  attaches := takes_member
  chains := takes_nameChain

/-- **Every rule goes the same way before a member**, whatever the budget of the first walk, given more calls
than that. -/
theorem prolongs_unroll (hp : p.Dotted) (parsing : Parsing) {k k' : Nat} (hk : k < k') :
    Prolongs p (unroll (body parsing) (astray p.text) k) (run parsing k') := by
  -- By induction on the calls of the first walk; the second one has a call more for the member.
  induction k generalizing k' with
  | zero =>
    obtain ⟨k', rfl⟩ := Nat.exists_eq_succ_of_ne_zero (Nat.ne_zero_of_lt hk)
    exact prolongs_astray
  | succ k ih =>
    obtain ⟨k', rfl⟩ := Nat.exists_eq_succ_of_ne_zero (Nat.ne_zero_of_lt hk)
    exact prolongs_body hp (ih (Nat.lt_of_succ_lt_succ hk))

end TypeAhead.Fragment.Rule
