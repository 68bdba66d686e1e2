/-
  TypeAhead.Proofs.Fragment.Discipline — NO RULE TOUCHES WHAT ITS CALLER OPENED.

  A rule may leave operands open, but only where the text is over or the walk
  has failed; otherwise the stack is the one that the rule was entered with.
  What was open before a rule is open after it in any case, and the depth is the
  same.  All this holds from every walk, whether a text leads to it or not.

  The property composes: only `operand` opens and closes, and every other rule
  keeps the discipline because the rules that it calls keep it.

      restores_bind      rules in a row
      restores_run       every rule, with every budget
-/
import TypeAhead.Fragment.Locate
import TypeAhead.Proofs.Walk.Contract

namespace TypeAhead.Fragment

open Walker

/-! ## §1. Two walks with one stack below. -/

/-- What was open in `w` is still open in `v`, below whatever else is, at the same depth. -/
structure Above (w v : Walk (List Nat)) : Prop where
  depth : v.depth = w.depth
  open_below : w.held <:+ v.held

/-- `v` has the stack of `w`, unless the text is over; then it may have more on top. -/
structure Restored (w v : Walk (List Nat)) : Prop extends Above w v where
  closed : v.cursor.current.isFinish = false → v.held = w.held
  finished : w.cursor.current.isFinish = true → v.cursor.current.isFinish = true

/-- What is open below stays so from one walk to the next. -/
theorem Above.trans {w v u : Walk (List Nat)} (h : Above w v) (h' : Above v u) : Above w u :=
  ⟨h'.depth.trans h.depth, h.open_below.trans h'.open_below⟩

/-- To do nothing restores the stack. -/
theorem Restored.refl (w : Walk (List Nat)) : Restored w w :=
  ⟨⟨rfl, List.suffix_refl _⟩, fun _ => rfl, id⟩

/-- One restored stack after another. -/
theorem Restored.trans {w v u : Walk (List Nat)} (h : Restored w v) (h' : Restored v u) :
    Restored w u := by
  refine ⟨h.toAbove.trans h'.toAbove, ?_, fun hw => h'.finished (h.finished hw)⟩
  intro hu
  have hv : v.cursor.current.isFinish = false := by
    cases hv : v.cursor.current.isFinish with
    | false => rfl
    | true => rw [h'.finished hv] at hu; cases hu
  rw [h'.closed hu, h.closed hv]

/-- The stack is the same and only the place has changed, though not away from the end. -/
theorem Restored.of_held {w v : Walk (List Nat)} (hdepth : v.depth = w.depth)
    (hheld : v.held = w.held)
    (hover : w.cursor.current.isFinish = true → v.cursor.current.isFinish = true) :
    Restored w v :=
  ⟨⟨hdepth, hheld ▸ List.suffix_refl _⟩, fun _ => hheld, hover⟩

/-! ## §2. The discipline, and what keeps it. -/

/-- The rule leaves the stack as it found it, or at the end of the text or when it fails with
more on top. -/
def Restores {α : Type} (x : Locator α) : Prop :=
  ∀ w, Ensures x w (fun _ => True) (fun _ v => Restored w v) (fun _ v => Above w v)

variable {α β : Type}

/-- **One rule after the other** restores what both do. -/
theorem restores_bind {x : Locator α} {f : α → Locator β} (hx : Restores x)
    (hf : ∀ a, Restores (f a)) : Restores (x >>= f) := by
  intro w
  refine (hx w).bind fun a v hv => ?_
  exact (hf a v).imp (fun _ u hu => hv.trans hu) fun _ u hu => hv.toAbove.trans hu

theorem restores_pure (a : α) : Restores (pure a) := fun w => .pure trivial (.refl w)

theorem restores_look (f : Cursor → α) : Restores (look f) := fun w => .look trivial (.refl w)

theorem restores_fail (cause : Cause) : Restores (fail cause : Locator α) :=
  fun w => .fail trivial (Restored.refl w).toAbove

theorem restores_failAt (position : Nat) (cause : Cause) :
    Restores (failAt position cause : Locator α) :=
  fun w => .failAt trivial (Restored.refl w).toAbove

theorem restores_refuse : Restores (refuse : Locator α) :=
  fun w => .refuse trivial (Restored.refl w).toAbove

theorem restores_ofExcept (result : Except Fault α) : Restores (ofExcept result) :=
  fun w => .ofExcept trivial (fun _ _ => .refl w) fun _ _ => (Restored.refl w).toAbove

/-- After the end of the text there is nothing but its end. -/
theorem isFinish_of_next {c d : Cursor} (h : c.next = .ok d) (hc : c.current.isFinish = true) :
    d.current.isFinish = true := by
  rw [Cursor.next, if_pos hc] at h
  cases h
  exact hc

/-- To go on opens and closes nothing. -/
theorem restores_advance : Restores advance :=
  fun w => .advance trivial (fun _ h => ⟨trivial, .of_held rfl rfl (isFinish_of_next h)⟩)
    fun _ _ => (Restored.refl w).toAbove

/-- A token may be worded anew. -/
theorem restores_reword (f : Cursor → String) : Restores (edit fun c => c.reword (f c)) :=
  fun _ => .edit trivial trivial (.of_held rfl rfl id)

theorem restores_onlyIf (test : Cursor → Bool) {x : Locator Unit} (hx : Restores x) :
    Restores (onlyIf test x) :=
  restores_bind (restores_look test) fun b => by
    cases b
    · exact restores_pure ()
    · exact hx

theorem restores_demand (test : Cursor → Bool) (cause : Cause) :
    Restores (demand test cause : Locator Unit) :=
  restores_bind (restores_look test) fun b => by
    cases b
    · exact restores_fail cause
    · exact restores_pure ()

theorem restores_expect (kind : TokenKind) (cause : Cause) :
    Restores (expect kind cause : Locator Unit) :=
  restores_bind (restores_demand _ cause) fun _ => restores_advance

/-- One level deeper the stack is the same, and on the way back the depth is restored. -/
theorem restores_nested {x : Locator α} (hx : Restores x) : Restores (nested x) := by
  intro w
  refine .nested trivial (fun _ => (Restored.refl w).toAbove) fun _ => ?_
  refine (hx w.deeper).imp (fun _ v hv => ⟨trivial, ?_⟩) fun _ v hv => ⟨trivial, ?_⟩
  · have hdepth : v.depth - 1 = w.depth := by rw [hv.depth]; rfl
    exact ⟨⟨hdepth, hv.open_below⟩, hv.closed, hv.finished⟩
  · have hdepth : v.depth - 1 = w.depth := by rw [hv.depth]; rfl
    exact ⟨hdepth, hv.open_below⟩

/-- Every round of a loop restores the stack, so the loop does. -/
theorem restores_repeatStep {step : α → Locator (Bool × α)} (hstep : ∀ a, Restores (step a))
    (a : α) : Restores (repeatStep step a) := by
  intro w
  refine .repeatStep (J := fun _ v => Restored w v) (fun _ _ _ => trivial)
    (fun _ _ hv => hv.toAbove) (fun a v hv => ?_) (.refl w)
  refine (hstep a v).imp (fun next u hu => ?_) fun _ u hu => hv.toAbove.trans hu
  split
  · exact hv.trans hu
  · exact ⟨trivial, hv.trans hu⟩

theorem restores_repeatWhile (test : Cursor → Bool) {step : Locator Unit}
    (hstep : Restores step) : Restores (repeatWhile test step) :=
  restores_repeatStep (fun _ => restores_bind (restores_look test) fun b => by
    cases b
    · exact restores_pure _
    · exact restores_bind hstep fun _ => restores_pure _) ()

/-! ## §3. Parts that call no rule. -/

theorem restores_discardedOut : Restores (discardedOut : Locator Bool) :=
  restores_bind (restores_look _) fun b => by
    cases b
    · exact restores_pure false
    · exact restores_bind restores_advance fun _ =>
        restores_bind (restores_demand _ _) fun _ =>
          restores_bind restores_advance fun _ => restores_pure true

/-- A dotted name is nothing but steps on. -/
theorem restores_dottedName : Restores (dottedName : Locator String) :=
  restores_repeatStep (fun _ => restores_bind (restores_look _) fun token => by
    split
    · exact restores_bind restores_advance fun _ => restores_pure _
    · exact restores_pure _) ""

theorem restores_aliasName (dotted : Bool) : Restores (aliasName dotted : Locator String) :=
  restores_bind (restores_demand _ _) fun _ => by
    cases dotted
    · exact restores_bind (restores_look _) fun _ =>
        restores_bind restores_advance fun _ => restores_pure _
    · exact restores_bind restores_dottedName fun _ => restores_pure _

namespace Rule

/-- The operator of a containment, with its negation. -/
theorem restores_containmentOperator (operator : Token) :
    Restores (containmentOperator operator) := by
  refine restores_bind (restores_onlyIf _ (restores_bind restores_advance fun _ => ?_))
    fun _ => restores_advance
  refine restores_bind (restores_look _) fun b => ?_
  cases b
  · exact restores_failAt _ _
  · exact restores_pure ()

/-- The name of a type after `new`. -/
theorem restores_createdType : Restores createdType :=
  restores_bind restores_advance fun _ =>
    restores_bind (restores_repeatWhile _
        (restores_bind restores_advance fun _ => restores_expect _ _)) fun _ =>
      restores_demand _ _

theorem restores_arrayMark : Restores arrayMark :=
  restores_bind (restores_look _) fun b => by
    cases b
    · exact restores_pure false
    · exact restores_bind restores_advance fun _ =>
        restores_bind (restores_expect _ _) fun _ =>
          restores_bind (restores_demand _ _) fun _ => restores_pure true

theorem restores_comma : Restores comma :=
  restores_bind (restores_look _) fun b => by
    cases b
    · exact restores_pure _
    · exact restores_bind restores_advance fun _ => restores_pure _

/-- To look ahead changes nothing. -/
theorem restores_lookAhead : Restores lookAhead :=
  restores_bind (restores_look _) fun _ => restores_bind (restores_ofExcept _) fun ahead => by
    split
    · exact restores_bind (restores_ofExcept _) fun _ => restores_pure ()
    · exact restores_pure ()

theorem restores_adjacentLiterals (first : String) : Restores (adjacentLiterals first) :=
  restores_bind restores_advance fun _ =>
    restores_repeatStep (fun _ => restores_bind (restores_look _) fun token => by
      split
      · exact restores_bind restores_advance fun _ => restores_pure _
      · exact restores_pure _) first

theorem restores_literalValue (parsing : Parsing) (literal : String) :
    Restores (literalValue parsing literal) :=
  restores_bind (restores_look _) fun _ => restores_ofExcept _

/-- A literal, with what may stand in a row with it. -/
theorem restores_literal (parsing : Parsing) : Restores (literal parsing) := by
  refine restores_bind restores_lookAhead fun _ => restores_bind (restores_look _) fun first => ?_
  refine restores_bind (restores_literalValue parsing first.text) fun value => ?_
  split
  · split
    · exact restores_fail _
    · exact restores_advance
  · exact restores_bind (restores_adjacentLiterals first.text) fun joined =>
      restores_bind (restores_literalValue parsing joined) fun _ => restores_pure ()

/-! ## §4. Parts that call rules. -/

variable {parsing : Parsing} {call : Rule → Locator Unit}

/-- Operands with operators between them. -/
theorem restores_chain (h : ∀ r, Restores (call r)) (rule : Rule) (isOperator : Cursor → Bool) :
    Restores (chain call rule isOperator) :=
  restores_bind (h rule) fun _ =>
    restores_repeatWhile _ (restores_bind restores_advance fun _ => h rule)

theorem restores_listElement (h : ∀ r, Restores (call r)) (operator : Token) :
    Restores (listElement call operator) := by
  refine restores_bind restores_advance fun _ => restores_bind (h unary) fun _ =>
    restores_bind (restores_look _) fun b => ?_
  cases b
  · exact restores_pure ()
  · exact restores_failAt _ _

/-- The right side of a containment opens and closes its own operands. -/
theorem restores_container (h : ∀ r, Restores (call r)) : Restores (container call) := by
  refine restores_bind (restores_look _) fun operator =>
    restores_bind (restores_containmentOperator operator) fun _ =>
      restores_bind (restores_look _) fun kind => ?_
  split
  · exact restores_bind (restores_repeatWhile _ (restores_listElement h operator)) fun _ =>
      restores_advance
  · exact h operand
  · exact restores_failAt _ _

/-- What is attached to an operand stays within it. -/
theorem restores_attached (h : ∀ r, Restores (call r)) : Restores (attached call) := by
  refine restores_repeatWhile _ (restores_bind (restores_look _) fun kind => ?_)
  split
  · exact restores_bind restores_advance fun _ => h member
  · exact restores_refuse
  · exact h elementAccess

theorem restores_createdMember (h : ∀ r, Restores (call r)) (isArray : Bool) :
    Restores (createdMember parsing call isArray) :=
  restores_bind (h conditional) fun _ =>
    restores_onlyIf _ (restores_bind restores_advance fun _ =>
      restores_bind (restores_aliasName _) fun _ => restores_pure ())

/-- All members of what `new` makes. -/
theorem restores_createdMembers (h : ∀ r, Restores (call r)) (isArray : Bool) :
    Restores (createdMembers parsing call isArray) :=
  restores_repeatStep (fun _ => restores_bind (restores_look _) fun b => by
    cases b
    · exact restores_bind (restores_createdMember h isArray) fun _ => restores_comma
    · exact restores_pure _) ()

/-! ## §5. Bodies and runs. -/

/-- The rules that are operands with operators between them, each with the rule of its operands and
the test for its operators.  Arguments are left aside, as they stand in brackets. -/
def operators? : Rule → Option (Rule × (Cursor → Bool))
  | disjunction => some (conjunction, fun c => c.isKind .doubleBar)
  | conjunction => some (containment, fun c => c.isKind .doubleAmpersand)
  | bitwise => some (comparison, fun c => c.isAny [.ampersand, .bar])
  | comparison => some (shift, fun c => c.current.kind.isComparison)
  | shift => some (sum, fun c => c.isAny [.shiftLeft, .shiftRight])
  | sum => some (product, fun c => c.isAny [.plus, .minus])
  | product => some (unary, fun c => c.isAny [.asterisk, .slash, .percent] || c.isWord "mod")
  | _ => none

/-- The rules of which `operators?` knows the operators are chains of them. -/
theorem body_operators {rule sub : Rule} {test : Cursor → Bool}
    (h : rule.operators? = some (sub, test)) (call : Rule → Locator Unit) :
    body parsing call rule = chain call sub test := by
  cases rule <;> cases h <;> rfl

/-- The symbols that stand between operands. -/
def operatorKinds : List TokenKind :=
  [.doubleBar, .doubleAmpersand, .ampersand, .bar, .equal, .doubleEqual, .notEqual, .lessGreater,
    .lessThan, .lessThanEqual, .greaterThan, .greaterThanEqual, .shiftLeft, .shiftRight, .plus, .minus,
    .asterisk, .slash, .percent]

/-- A token that passes for one of some operators is one of all operators. -/
theorem mem_operatorKinds_of_isAny {kinds : List TokenKind} (hkinds : kinds ⊆ operatorKinds) {c : Cursor}
    (h : c.isAny kinds = true) : c.current.kind ∈ operatorKinds :=
  hkinds (List.contains_iff_mem.1 h)

/-- Comparisons are among the operators. -/
theorem mem_operatorKinds_of_isComparison : ∀ kind ∈ TokenKind.all, kind.isComparison = true →
    kind ∈ operatorKinds := by
  decide

/-- An operator is one of the symbols, or the word `mod`. -/
theorem operators?_cases {rule sub : Rule} {test : Cursor → Bool}
    (h : rule.operators? = some (sub, test)) {c : Cursor} (htest : test c = true) :
    c.current.kind ∈ operatorKinds ∨ c.isWord "mod" = true := by
  cases rule <;> cases h
  case disjunction | conjunction => exact .inl (beq_iff_eq.1 htest ▸ by decide)
  case comparison => exact .inl (mem_operatorKinds_of_isComparison _ (TokenKind.mem_all _) htest)
  case product => exact (Bool.or_eq_true_iff.1 htest).imp_left (mem_operatorKinds_of_isAny (by decide))
  all_goals exact .inl (mem_operatorKinds_of_isAny (by decide) htest)

/-- No operator is of a kind that is neither a name nor one of the symbols. -/
theorem operators?_kind_ne {rule sub : Rule} {test : Cursor → Bool}
    (h : rule.operators? = some (sub, test)) {c : Cursor} (htest : test c = true) {kind : TokenKind}
    (hkind : kind ∉ .identifier :: operatorKinds) : c.current.kind ≠ kind := by
  rintro rfl
  rw [List.mem_cons, not_or] at hkind
  rcases operators?_cases h htest with hmem | hmod
  · exact hkind.2 hmem
  · exact hkind.1 (by simpa [Cursor.isWord] using (Bool.and_eq_true_iff.1 hmod).1)

/-- What is neither one of the symbols nor the word `mod` is no operator. -/
theorem operators?_of_not {rule sub : Rule} {test : Cursor → Bool}
    (h : rule.operators? = some (sub, test)) {c : Cursor} (hkind : c.current.kind ∉ operatorKinds)
    (hmod : c.isWord "mod" = false) : test c = false := by
  refine Bool.eq_false_iff.2 fun htest => ?_
  rcases operators?_cases h htest with hmem | hword
  · exact hkind hmem
  · rw [hmod] at hword
    cases hword

/-- A minus that becomes part of the number after it moves no walk away from the end. -/
theorem restores_fold (operator : Token) {x : Locator Unit} (hx : Restores x) (w : Walk (List Nat))
    (hnumber : w.cursor.current.kind.isNumber = true) :
    Ensures (do replace (w.cursor.current.negated operator); x) w (fun _ => True)
      (fun _ v => Restored w v) fun _ v => Above w v := by
  have hw : w.cursor.current.isFinish = true → False := by
    simp only [Token.isFinish, beq_iff_eq]
    intro hk
    rw [hk] at hnumber
    cases hnumber
  refine Ensures.bind (Q := fun _ v => Restored w v)
    (.edit trivial trivial (.of_held rfl rfl fun h => (hw h).elim)) fun _ v hv => ?_
  exact (hx v).imp (fun _ u hu => hv.trans hu) fun _ u hu => hv.toAbove.trans hu

/-- An operand with operators before it. -/
theorem restores_unary (h : ∀ r, Restores (call r)) : Restores (body parsing call unary) := by
  refine restores_nested (restores_bind (restores_look _) fun b => ?_)
  cases b
  · exact h operand
  refine restores_bind (restores_look _) fun operator => restores_bind restores_advance fun _ => ?_
  intro w
  refine Ensures.bind (Q := fun t v => t = w.cursor.current ∧ v = w)
    (.look trivial ⟨rfl, rfl⟩) ?_
  rintro _ _ ⟨rfl, rfl⟩
  split
  · rename_i hfold
    exact restores_fold operator (h operand) _ (Bool.and_eq_true _ _ ▸ hfold).2
  · exact h unary _

/-- The walk with an operand opened where it stands. -/
def opened (w : Walk (List Nat)) : Walk (List Nat) :=
  { w with held := w.cursor.current.start :: w.held }

/-- What is open above an operand that was just opened is open above what was below it. -/
theorem above_of_opened {w v : Walk (List Nat)} (h : Above (opened w) v) : Above w v :=
  ⟨h.depth, (List.suffix_cons _ _).trans h.open_below⟩

/-- Closing takes away what opening has put on the stack, and nothing at the end of the text. -/
theorem ensures_closeOperand {w v : Walk (List Nat)} (h : Restored (opened w) v) :
    Ensures closeOperand v (fun _ => True) (fun _ u => Restored w u) fun _ u => Above w u := by
  refine .hold trivial trivial ?_
  cases hv : v.cursor.current.isFinish with
  | true =>
    refine ⟨⟨h.depth, ?_⟩, fun hu => absurd (hv.symm.trans hu) nofun, fun _ => hv⟩
    simp only [if_true]
    exact (above_of_opened h.toAbove).open_below
  | false =>
    have hheld : v.held = w.cursor.current.start :: w.held := h.closed hv
    refine .of_held h.depth ?_ h.finished
    simp [hheld]

/-- Only an operand opens anything, and it closes it again where the text goes on. -/
theorem restores_operand (h : ∀ r, Restores (call r)) : Restores (body parsing call operand) := by
  intro w
  refine Ensures.bind (Q := fun _ v => v = opened w) (.hold trivial trivial rfl) ?_
  rintro _ _ rfl
  refine Ensures.bind (Q := fun _ v => Restored (opened w) v)
    ((h primary _).imp (fun _ _ hv => hv) fun _ _ hv => above_of_opened hv) fun _ v hv => ?_
  refine Ensures.bind (Q := fun _ u => Restored (opened w) u)
    ((restores_attached h v).imp (fun _ _ hu => hv.trans hu)
      fun _ _ hu => above_of_opened (hv.toAbove.trans hu)) fun _ u hu => ?_
  exact ensures_closeOperand hu

/-- A member, with what stands behind its name. -/
theorem restores_member (h : ∀ r, Restores (call r)) : Restores (body parsing call member) := by
  refine restores_bind (restores_demand _ _) fun _ => restores_bind (restores_reword _) fun _ =>
    restores_bind restores_advance fun _ => restores_bind (restores_look _) fun b => ?_
  cases b
  · exact restores_bind (restores_onlyIf _ (h nameChain)) fun _ =>
      restores_onlyIf _ (h argumentList)
  · exact restores_bind restores_advance fun _ => h conditional

/-- An operand by itself: none of the rules to which it leads leaves anything open. -/
theorem restores_primary (h : ∀ r, Restores (call r)) : Restores (body parsing call primary) := by
  refine restores_bind (restores_look _) fun kind => ?_
  split
  · refine restores_bind (restores_look _) fun b => ?_
    cases b
    · exact h member
    · exact h creation
  · exact h text
  · exact restores_advance
  · exact restores_advance
  · exact h parenthesized
  · exact restores_fail _

/-- A creation from `new` to its closing bracket. -/
theorem restores_creation (h : ∀ r, Restores (call r)) : Restores (body parsing call creation) :=
  restores_bind restores_advance fun _ => restores_bind (restores_demand _ _) fun _ =>
    restores_bind (restores_onlyIf _ restores_createdType) fun _ =>
      restores_bind restores_arrayMark fun isArray => restores_bind restores_advance fun _ =>
        restores_bind (restores_createdMembers h isArray) fun _ =>
          restores_bind (restores_demand _ _) fun _ => restores_advance

/-- **Every rule keeps the discipline if the rules that it calls do.** -/
theorem restores_body (h : ∀ r, Restores (call r)) (r : Rule) :
    Restores (body parsing call r) := by
  -- Only an operand opens anything, and it closes that again; the others do what they call for.
  cases r with
  | conditional =>
    exact restores_nested (restores_bind (h coalescing) fun _ => restores_onlyIf _
      (restores_bind restores_advance fun _ => restores_bind (h conditional) fun _ =>
        restores_bind (restores_expect _ _) fun _ => h conditional))
  | coalescing =>
    exact restores_bind (h projection) fun _ => restores_onlyIf _
      (restores_bind restores_advance fun _ => h conditional)
  | projection =>
    exact restores_bind (h disjunction) fun _ => restores_onlyIf _
      (restores_bind restores_advance fun _ =>
        restores_bind (restores_onlyIf _ (h conditional)) fun _ => restores_demand _ _)
  | containment =>
    exact restores_bind (h bitwise) fun _ => restores_repeatWhile _ (restores_container h)
  | disjunction | conjunction | bitwise | comparison | shift | sum | product | arguments =>
    exact restores_chain h _ _
  | unary => exact restores_unary h
  | operand => exact restores_operand h
  | primary => exact restores_primary h
  | member => exact restores_member h
  | nameChain =>
    exact restores_bind (restores_repeatWhile _ (restores_bind restores_advance fun _ =>
      restores_onlyIf _ restores_advance)) fun _ => restores_onlyIf _ (h member)
  | argumentList =>
    exact restores_bind (restores_expect _ _) fun _ =>
      restores_bind (restores_onlyIf _ (h arguments)) fun _ => restores_expect _ _
  | argument =>
    refine restores_bind restores_discardedOut fun b => ?_
    cases b
    · exact h conditional
    · exact restores_pure ()
  | elementAccess =>
    exact restores_bind (restores_expect _ _) fun _ => restores_bind (h arguments) fun _ =>
      restores_expect _ _
  | creation => exact restores_creation h
  | parenthesized =>
    exact restores_bind (restores_expect _ _) fun _ => restores_bind (h conditional) fun _ =>
      restores_expect _ _
  | text => exact restores_literal parsing

/-- **Every rule keeps the discipline, whatever its budget.** -/
theorem restores_run (parsing : Parsing) (budget : Nat) (r : Rule) :
    Restores (run parsing budget r) := by
  induction budget generalizing r with
  | zero => exact restores_fail _
  | succ budget ih => exact restores_body ih r

end Rule

end TypeAhead.Fragment
