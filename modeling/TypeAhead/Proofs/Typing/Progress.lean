/-
  TypeAhead.Proofs.Typing.Progress — TYPING GOES ON.

  Every rule of typing takes a token when it succeeds, and there are fewer tokens
  ahead of it then.  So each of the loops takes a token in every round, and is over
  without its budget; and so is the look for a name of several words.

  Between two nested rules every rule is under way at most once, so the budget of
  the recursion is not used up, whatever a call would come to where it is.

      consumes_run             every rule takes a token
      unroll_eq_run            the recursion ends by itself
      roundsConsume_of_loop    and so do the loops
      nameRounds               and the looks for names
-/
import TypeAhead.Proofs.Typing.Enclosed
import TypeAhead.Proofs.Typing.Steady

namespace TypeAhead.Typing.Rule

open Walker

variable {α : Type} {d : Nat} {s : Setting} {w : ScopedWalk}

/-! ## §1. Every rule. -/

theorem steady_run (s : Setting) (k d : Nat) (r : Rule) : Steady d (run s k r) (run s k r) := by
  induction k generalizing d r with
  | zero => exact steady_fail _
  | succ k ih =>
    -- A number whose token takes a minus goes on only because the operand takes that token.
    have hoperand : Consumes (run s k operand) :=
      consumes_of_ahead_lt (fun d => ih d operand) fun _ _ _ hrun => ahead_lt_of_run hrun
    exact steady_body ⟨fun _ => ih d _, fun sub _ => ih (d + 1) sub⟩ hoperand

/-- **Every rule takes a token**, with any budget. -/
theorem consumes_run (s : Setting) (k : Nat) (r : Rule) : Consumes (run s k r) :=
  consumes_of_ahead_lt (fun d => steady_run s k d r) fun _ _ _ hrun => ahead_lt_of_run hrun

/-- So does an operand by itself. -/
theorem consumes_primary (s : Setting) (k : Nat) : Consumes (primary s (run s k)) := by
  refine consumes_of_ahead_lt (fun d => steady_primary (steady_run s k d conditional)) fun w a u hrun => ?_
  have hcalls : CopiesCalls true (run s k) (run s k) := copiesCalls_run s fun _ => Nat.le_refl k
  have htwin : (Enclosure.self : Enclosure .bracket true).Twin w w := Enclosure.twin_self w
  exact (copies_primary hcalls (fun hmember => absurd hmember (by decide)) htwin a u hrun).1

/-- The calls that may be under way from a rule on that is called at a depth. -/
def calls (r : Rule) (d : Nat) : Nat := 16 * (Limits.nesting - d) + r.callHeight

/-- **Every rule comes to the same with budgets that are enough for its calls**, whatever the calls beyond
them come to. -/
theorem steady_unroll (s : Setting) (base : Rule → Typer Operand) {budget k k' : Nat} (hk : budget ≤ k)
    (hk' : budget ≤ k') {r : Rule} (hcalls : r.calls d ≤ budget) :
    Steady d (run s k r) (unroll (body s) base k' r) := by
  -- The induction is on the budget that is enough: a lower rule has a smaller height, and one level
  -- deeper there are sixteen calls fewer, more than the greatest height.
  induction budget generalizing k k' d r with
  | zero =>
    have hheight : 0 < r.callHeight := by cases r <;> decide
    unfold calls at hcalls
    omega
  | succ budget ih =>
    obtain ⟨k, rfl⟩ := Nat.exists_eq_add_of_le' (Nat.le_of_add_left_le hk)
    obtain ⟨k', rfl⟩ := Nat.exists_eq_add_of_le' (Nat.le_of_add_left_le hk')
    have hk := Nat.le_of_succ_le_succ hk
    have hk' := Nat.le_of_succ_le_succ hk'
    refine steady_body ⟨fun hlt => ih hk hk' ?_, fun sub hd => ih hk hk' ?_⟩ (consumes_run s k operand)
    · unfold calls at hcalls ⊢
      omega
    · have hsub : sub.callHeight ≤ 11 := by cases sub <;> decide
      unfold calls at hcalls ⊢
      omega

/-- **The budget of typing is not used up**: a rule comes to the same whatever the calls beyond it come to. -/
theorem unroll_eq_run (s : Setting) (base : Rule → Typer Operand) {k : Nat} (hk : budget ≤ k) (r : Rule)
    (w : ScopedWalk) : (unroll (body s) base k r).run w = (run s budget r).run w := by
  have hheight : r.callHeight ≤ 11 := by cases r <;> decide
  have hcalls : r.calls w.depth ≤ budget := by
    unfold calls budget
    omega
  exact (steady_unroll s base (Nat.le_refl _) hk hcalls w rfl).run_eq

/-! ## §2. Loops. -/

/-- The loops of typing, each of them by its rounds. -/
inductive Loop (s : Setting) (call : Rule → Typer Operand) :
    (α : Type) → (α → Typer (Bool × α)) → Prop where
  /-- Operators and the operands after them. -/
  | links (rule : Rule) (isOperator : Cursor → Bool) : Loop s call Operand (linkStep s call rule isOperator)
  /-- Containments after an operand. -/
  | containments : Loop s call Operand (containmentStep s call)
  /-- The elements of the list of a containment. -/
  | elements (operator : Token) (left : Operand) : Loop s call Unit (elementStep s call operator left)
  /-- What is attached to an operand. -/
  | attachments : Loop s call Operand (attachedStep s call)
  /-- Arguments after commas. -/
  | arguments : Loop s call (List Operand) (argumentStep call)
  /-- The name of the type after `new`. -/
  | createdName : Loop s call String createdNameStep
  /-- The members of what `new` makes. -/
  | createdMembers (isArray : Bool) : Loop s call (List (String × Operand)) (createdStep s call isArray)
  /-- Literals in a row. -/
  | literals : Loop s call String literalStep
  /-- The dots and words of an alias. -/
  | aliasName : Loop s call String dottedStep

theorem consumesFrom_pastOperator (isNegated : Bool) (position : Nat) {x : Typer Unit} (hx : ∀ d, Steady d x x)
    (hw : w.cursor.current.isFinish = false) : ConsumesFrom w (pastOperator isNegated position x) := by
  unfold pastOperator
  split
  · exact consumesFrom_advanceThen hw fun d => steady_lookThen fun _ =>
      steady_unless (steady_stop _) (steady_bind steady_advance fun _ => hx d)
  · exact consumesFrom_advanceThen hw hx

/-- A containment goes past its operator. -/
theorem consumesFrom_container {k : Nat} (left : Operand) (hw : w.cursor.current.isFinish = false) :
    ConsumesFrom w (container s (run s k) left) := by
  have hunary := fun d => steady_run s k d unary
  have hoperand := fun d => steady_run s k d operand
  rw [container_eq]
  exact consumesFrom_lookThen (consumesFrom_pastOperator _ _
    (fun d => steady_contained (hunary d) (hoperand d) _ left) hw)

theorem consumes_elementAccess {k : Nat} (owner : TypeDef) : Consumes (elementAccess s (run s k) owner) :=
  fun w => consumesFrom_lookThen (consumesFrom_bind (consumes_expect (by decide) _ w) fun _ d =>
    steady_indexed (steady_run s k d conditional) owner _)

theorem roundsConsume_of_loop {k : Nat} {step : α → Typer (Bool × α)} (h : Loop s (run s k) α step) :
    RoundsConsume step := by
  -- A round that goes on reads an operator, a separator or an operand; one that stops may read nothing.
  cases h with
  | links rule isOperator =>
    refine fun left w => roundFrom_lookThen ?_
    split
    · refine ConsumesFrom.round (consumesFrom_lookThen (consumesFrom_then (fun _ => steady_advance) fun _ u _ => ?_))
      exact consumesFrom_bind (consumes_run s k rule u) fun right _ =>
        steady_bind (steady_ofExcept _) fun _ => steady_pure _
    · exact roundFrom_stop _ w
  | containments =>
    refine fun left w => roundFrom_lookThen ?_
    split
    · rename_i hstarts
      exact (consumesFrom_bind (consumesFrom_container left
        (Fragment.Rule.isFinish_of_startsContainment hstarts)) fun _ _ => steady_pure _).round
    · exact roundFrom_stop _ w
  | elements operator left =>
    -- The operand goes past a token, whatever stands before it.
    exact fun _ w => (consumesFrom_then (fun _ => steady_advance) fun _ u _ =>
      consumesFrom_bind (consumes_run s k unary u) fun element _ => steady_afterElement operator left element).round
  | attachments =>
    refine fun a w => roundFrom_lookThen ?_
    split
    · rename_i hdot
      exact (consumesFrom_advanceThen (Token.isFinish_of_kind hdot (by decide)) fun d =>
        steady_bind (steady_memberAccess (steady_run s k d conditional) _ _) fun _ => steady_pure _).round
    · exact (consumes_stop _ w).round
    · exact (consumesFrom_bind (consumes_elementAccess a.type w) fun _ _ => steady_pure _).round
    · exact roundFrom_stop _ w
  | arguments =>
    refine fun read w => roundFrom_lookThen ?_
    split
    · rename_i hcomma
      exact (consumesFrom_advanceThen (Token.isFinish_of_kind hcomma (by decide)) fun d =>
        steady_bind (steady_argument (steady_run s k d conditional)) fun _ => steady_pure _).round
    · exact roundFrom_stop _ w
  | createdName =>
    refine fun name w => roundFrom_lookThen ?_
    split
    · rename_i hjoint
      exact (consumesFrom_advanceThen
        (Fragment.Rule.isFinish_of_test (fun _ => Fragment.isAny_finish (by decide)) hjoint) fun d =>
          steady_bind (steady_demand _ _) fun _ => steady_lookThen fun _ => steady_bind steady_advance fun _ =>
            steady_pure _).round
    · exact roundFrom_stop _ w
  | createdMembers isArray =>
    refine fun members w => roundFrom_lookThen ?_
    split
    · exact roundFrom_stop _ w
    -- A member starts with an expression, which goes past a token by itself.
    · refine ConsumesFrom.round (consumesFrom_lookThen ?_)
      exact consumesFrom_bind (consumes_run s k conditional w) fun a _ =>
        steady_createdMember isArray members _ a
  | literals =>
    refine fun joined w => roundFrom_lookThen ?_
    split
    · rename_i hliteral
      exact ConsumesFrom.round (consumesFrom_advanceThen
        (Token.isFinish_of_kind hliteral (by decide)) fun _ => steady_pure _)
    · exact roundFrom_stop _ w
  | aliasName => exact roundsConsume_dottedStep

/-! ## §3. Names of several words. -/

/-- `NameRounds s qualified c n o`: with the words `qualified` read up to the cursor `c`, a look for the name
of a type goes on for `n` words and then comes to `o`. -/
inductive NameRounds (s : Setting) :
    String → Cursor → Nat → Except Fault (Option (TypeDef × Cursor)) → Prop where
  | last {qualified : String} {c : Cursor} {found : Option (TypeDef × Cursor)}
      (h : nameStep s qualified c = .ok (.inl found)) : NameRounds s qualified c 1 (.ok found)
  | failed {qualified : String} {c : Cursor} {fault : Fault} (h : nameStep s qualified c = .error fault) :
      NameRounds s qualified c 1 (.error fault)
  | again {qualified longer : String} {c word : Cursor} {n : Nat} {o : Except Fault (Option (TypeDef × Cursor))}
      (h : nameStep s qualified c = .ok (.inr (longer, word))) (hrest : NameRounds s longer word n o) :
      NameRounds s qualified c (n + 1) o

/-- A budget that is not used up. -/
theorem NameRounds.qualifiedType?_eq {qualified : String} {c : Cursor} {n : Nat}
    {o : Except Fault (Option (TypeDef × Cursor))} (h : NameRounds s qualified c n o) {budget : Nat}
    (hbudget : n ≤ budget) : qualifiedType? s qualified c budget = o := by
  induction h generalizing budget with
  | last h | failed h =>
    obtain ⟨budget, rfl⟩ := Nat.exists_eq_add_of_le' hbudget
    rw [qualifiedType?_succ, h]
  | again h _ ih =>
    obtain ⟨budget, rfl⟩ := Nat.exists_eq_add_of_le' (Nat.le_of_add_left_le hbudget)
    rw [qualifiedType?_succ, h]
    exact ih (Nat.le_of_succ_le_succ hbudget)

/-- **A look for the name of a type is over by itself**, as every word of the name is behind the one before. -/
theorem nameRounds (s : Setting) (qualified : String) (c : Cursor) :
    ∃ n o, n ≤ c.ahead + 1 ∧ NameRounds s qualified c n o := by
  generalize hn : c.ahead = n
  induction n using Nat.strongRecOn generalizing qualified c with
  | ind n ih =>
    cases hstep : nameStep s qualified c with
    | error fault => exact ⟨1, _, Nat.le_add_left 1 n, .failed hstep⟩
    | ok next =>
      cases next with
      | inl found => exact ⟨1, _, Nat.le_add_left 1 n, .last hstep⟩
      | inr more =>
        obtain ⟨longer, word⟩ := more
        have hlt : word.ahead < c.ahead := (further_of_nameStep hstep).ahead_lt
        obtain ⟨m, o, hm, hrest⟩ := ih word.ahead (hn ▸ hlt) longer word rfl
        exact ⟨m + 1, o, by omega, .again hstep hrest⟩

end TypeAhead.Typing.Rule
