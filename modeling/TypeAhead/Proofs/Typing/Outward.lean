/-
  TypeAhead.Proofs.Typing.Outward — FROM A RULE TO A LOOSER ONE.

  Each rule but the innermost starts with a tighter one and goes on from there.  Where
  it does not go on, it comes to what the tighter rule comes to; and where the tighter
  rule fails, so does it.  So what is known of a rule at a place is known of all rules
  that start with it there.

  The innermost rule reads an operand and then, round by round, what is attached to it.

      Reads.outward      where looser rules come to
      ReadsIn.outward    the same, with as many levels left
      FailsIn.outward    how they fail
      FailsAt.outward    where they fail
      Begins.attach      an operand with one thing more attached to it
-/
import TypeAhead.Proofs.Typing.Enclosed
import TypeAhead.Proofs.Typing.Scopes

namespace TypeAhead.Typing

open Walker

/-! ## §1. Where a rule comes to. -/

section

variable {α β : Type} {v w : ScopedWalk} {x : Typer α} {g : α → Typer β} {a : α} {b : β} {c f : Cursor}

/-- The rule comes to a result at a place, unless it is too deep; nothing else of the walk changes. -/
def Comes (x : Typer α) (v : ScopedWalk) (a : α) (f : Cursor) : Prop :=
  (x.run v).TooDeep ∨ x.run v = .ok a (v.moved f)

theorem comes_pure (a : α) (v : ScopedWalk) : Comes (pure a) v a v.cursor := .inr rfl

/-- What follows goes on from the place. -/
theorem Comes.andThen (hx : Comes x v a c) (g : α → Typer β) :
    ((x >>= g).run v).TooDeep ∨ (x >>= g).run v = (g a).run (v.moved c) := by
  rcases hx with hdeep | hx
  · exact .inl (Enclosure.tooDeep_bind hdeep g)
  · exact .inr (run_bind_of_ok hx)

/-- One rule after the other.  The budget has to be enough for both. -/
theorem comes_bind (hx : Comes x v a c) (hg : Comes (g a) (v.moved c) b f) : Comes (x >>= g) v b f := by
  rcases hx.andThen g with hdeep | hrun
  · exact .inl hdeep
  · unfold Comes
    rw [hrun]
    exact hg

/-- What follows a look knows what was seen. -/
theorem comes_lookThen {γ : Type} {i : Cursor → γ} {g : γ → Typer β} (h : Comes (g (i v.cursor)) v b f) :
    Comes (look i >>= g) v b f :=
  h

/-- A nested rule does what the rule does one level deeper. -/
theorem run_nested_congr {y : Typer α} (h : x.run v.deeper = y.run v.deeper) :
    (nested x).run v = (nested y).run v := by
  simp only [nested, between, h]

/-- Below the limit, a rule that is nested comes to what it comes to one level deeper. -/
theorem run_nested_of_ok (hdepth : v.depth < Limits.nesting) (hx : x.run v.deeper = .ok a (v.deeper.moved f)) :
    (nested x).run v = .ok a (v.moved f) := by
  simp only [nested, between, if_neg (Nat.not_le.2 hdepth), hx]
  rfl

/-- Below the limit, a rule that is nested fails as it does one level deeper. -/
theorem run_nested_of_error {failure : Failure} (hdepth : v.depth < Limits.nesting)
    (hx : x.run v.deeper = .error failure w) : (nested x).run v = .error failure w.shallower := by
  simp only [nested, between, if_neg (Nat.not_le.2 hdepth), hx]

/-- Wherever it is not too deep, a nested rule comes to the same. -/
theorem comes_nested (hx : Comes x v.deeper a f) : Comes (nested x) v a f := by
  by_cases hdepth : v.depth < Limits.nesting
  · rcases hx with ⟨position, u, hdeep⟩ | hx
    · refine .inl ⟨position, u.shallower, ?_⟩
      simp only [nested, between, if_neg (Nat.not_le.2 hdepth), hdeep]
    · exact .inr (run_nested_of_ok hdepth hx)
  · refine .inl ⟨v.cursor.current.start, v, ?_⟩
    simp only [nested, if_pos (Nat.not_lt.1 hdepth)]
    rfl

theorem run_lookThen {γ : Type} (i : Cursor → γ) (g : γ → Typer β) :
    (look i >>= g).run v = (g (i v.cursor)).run v := rfl

/-- A loop of which the first round asks for no other. -/
theorem run_repeatStep_of_stop {step : α → Typer (Bool × α)} (h : (step a).run v = .ok (false, a) v) :
    (repeatStep step a).run v = .ok a v := by
  have hround : (repeatUpTo step (v.cursor.size + 2) a).run v = .ok a v := run_bind_of_ok h
  exact hround

theorem comes_advance (hnext : v.cursor.next = .ok c) : Comes advance v () c := .inr (run_advance hnext)

/-- A token of a kind is gone past where one stands. -/
theorem comes_expect {kind : TokenKind} {cause : Cause} (hkind : v.cursor.current.kind = kind)
    (hnext : v.cursor.next = .ok c) : Comes (expect kind cause) v () c := by
  have hrequire : Comes (require kind cause) v () v.cursor := by
    refine .inr ?_
    rw [require, run_demand, if_pos (by simp [Cursor.isKind, hkind])]
  exact comes_bind hrequire (comes_advance hnext)

end

namespace Rule

variable {s : Setting} {call : Rule → Typer Operand} {v w : ScopedWalk} {q r r' : Rule} {a b : Operand}
  {c d e f g : Cursor} {held : List Scope}

/-! ## §2. Rules inside of rules. -/

/-- The rule that a rule starts with. -/
def inner? : Rule → Option Rule
  | conditional => some coalescing
  | coalescing => some projection
  | projection => some disjunction
  | disjunction => some conjunction
  | conjunction => some containment
  | containment => some bitwise
  | bitwise => some comparison
  | comparison => some shift
  | shift => some sum
  | sum => some product
  | product => some unary
  | unary => some operand
  | operand => none

/-- `Inner q r`: the rule `r` is the rule `q`, or starts with a rule to which this applies. -/
inductive Inner : Rule → Rule → Prop where
  | refl (r : Rule) : Inner r r
  | outer {q r r' : Rule} (hr : r.inner? = some r') (h : Inner q r') : Inner q r

/-- Every rule of operators is inside of the one for conditionals. -/
theorem inner_conditional (r : Rule) : Inner r conditional := by
  cases r <;> repeat first | exact .refl _ | apply Inner.outer rfl

/-- The rule for operands is inside of every rule of operators. -/
theorem operand_inner (r : Rule) : Inner operand r := by
  cases r <;> repeat first | exact .refl _ | apply Inner.outer rfl

/-- At the cursor, neither the rule nor one inside of it goes on. -/
def Stops (r : Rule) (c : Cursor) : Prop := ∀ q, Inner q r → q.goesOn c = false

/-- Where a rule stops, it does not go on itself. -/
theorem Stops.goesOn (h : r.Stops c) : r.goesOn c = false := h r (.refl r)

/-- Where a rule stops, so do those inside of it. -/
theorem Stops.inner (h : r.Stops c) (hinner : r.inner? = some r') : r'.Stops c :=
  fun q hq => h q (.outer hinner hq)

/-- All rules stop at a closing parenthesis. -/
theorem stops_closeParen (r : Rule) (h : c.current.kind = .closeParen) : r.Stops c :=
  fun q _ => goesOn_closer q (by rw [h]; rfl)

/-- All rules stop at the end of the text. -/
theorem stops_finish (r : Rule) (h : c.current.isFinish = true) : r.Stops c := by
  intro q _
  rw [Token.isFinish, beq_iff_eq] at h
  cases q <;> simp [goesOn, h, Cursor.isOneOf, Cursor.isAny, Cursor.isWord, TokenKind.isComparison]

/-- All rules stop at a closing bracket. -/
theorem stops_closeBracket (r : Rule) (h : c.current.kind = .closeBracket) : r.Stops c :=
  fun q _ => goesOn_closer q (by rw [h]; rfl)

/-- No operator of one operand is at the cursor. -/
def NoSign (c : Cursor) : Prop := (c.isAny [.minus, .exclamation] || c.isWord "not") = false

/-- Only a minus, an exclamation mark and the word `not` are signs. -/
theorem noSign_of_kind (kind : TokenKind) (h : c.current.kind = kind)
    (hkind : kind ∉ [.identifier, .minus, .exclamation]) : NoSign c := by
  simp only [List.mem_cons, List.not_mem_nil, or_false, not_or] at hkind
  simp [NoSign, Cursor.isAny, Cursor.isWord, h, hkind]

/-! ## §3. From a rule to a looser one. -/

/-- Where a rule does not go on, it has come to its end. -/
theorem run_afterFirst_of_stop (hstop : r.goesOn v.cursor = false) (position : Nat) :
    (afterFirst s call r position a).run v = .ok a v := by
  -- A chain of operators is a loop, and stops in its first round.
  have hlinks : ∀ r', (links s call r' r.goesOn a).run v = .ok a v := by
    intro r'
    apply run_repeatStep_of_stop
    show (if r.goesOn v.cursor then _ else pure (false, a) : Typer (Bool × Operand)).run v = _
    rw [hstop]
    rfl
  -- Every other rule tests the token once and gives back its first operand.
  cases r with
  | conditional =>
    have hstop : ¬ v.cursor.current.kind = .question := by simpa [goesOn] using hstop
    show (if v.cursor.current.kind = .question then _ else pure a : Typer Operand).run v = _
    rw [if_neg hstop]
    rfl
  | coalescing =>
    have hstop : ¬ v.cursor.current.kind = .coalesce := by simpa [goesOn] using hstop
    show (if v.cursor.current.kind = .coalesce then _ else pure a : Typer Operand).run v = _
    rw [if_neg hstop]
    rfl
  | projection =>
    have hstop : ¬ v.cursor.current.kind = .arrow := by simpa [goesOn] using hstop
    show (if v.cursor.current.kind = .arrow then _ else pure a : Typer Operand).run v = _
    rw [if_neg hstop]
    rfl
  | containment =>
    apply run_repeatStep_of_stop
    show (if v.cursor.isOneOf ["in", "not_in", "not"] [.exclamation] then _ else pure (false, a) :
      Typer (Bool × Operand)).run v = _
    rw [show v.cursor.isOneOf ["in", "not_in", "not"] [.exclamation] = false from hstop]
    rfl
  | unary => rfl
  | operand => exact run_repeatStep_of_stop (run_attachedStep_of_stop a hstop)
  | disjunction => exact hlinks conjunction
  | conjunction => exact hlinks containment
  | bitwise => exact hlinks comparison
  | comparison => exact hlinks shift
  | shift => exact hlinks sum
  | sum => exact hlinks product
  | product => exact hlinks unary

/-- Where no operator of one operand stands, a rule goes on with the operand. -/
theorem run_of_noSign {x y : Typer Operand} (h : NoSign v.cursor) :
    (do if (← isAny [.minus, .exclamation]) || (← isWord "not") then x else y : Typer Operand).run v =
      y.run v := by
  show (if v.cursor.isAny [.minus, .exclamation] || v.cursor.isWord "not" then x else y).run v = y.run v
  rw [h]
  rfl

/-- **A rule runs the rule inside of it and goes on from there**, possibly one level deeper. -/
theorem run_body_of_inner (s : Setting) (call : Rule → Typer Operand) (hinner : r.inner? = some r') :
    (∀ v : ScopedWalk, (r = unary → NoSign v.cursor) →
      (body s call r).run v = (call r' >>= afterFirst s call r v.cursor.current.start).run v) ∨
    ∀ v : ScopedWalk, (r = unary → NoSign v.cursor) →
      (body s call r).run v = (nested (call r' >>= afterFirst s call r v.cursor.current.start)).run v := by
  -- Two rules count a level for what they read, and all others begin at once.
  cases r with
  | conditional =>
    cases hinner
    exact .inr fun _ _ => rfl
  | unary =>
    cases hinner
    right
    intro v hsign
    apply run_nested_congr
    rw [run_of_noSign (v := v.deeper) (hsign rfl), run_bind]
    cases (call operand).run v.deeper <;> rfl
  | operand => cases hinner
  | _ =>
    cases hinner
    exact .inl fun _ _ => rfl

/-- **A rule that does not go on comes to what the rule inside of it comes to.** -/
theorem comes_body (hcall : ∀ v : ScopedWalk, v.cursor = d → v.held = held → Comes (call r') v a f)
    (hinner : r.inner? = some r') (hstop : r.goesOn f = false) (hsign : r = unary → NoSign d)
    (hv : v.cursor = d) (hheld : v.held = held) : Comes (body s call r) v a f := by
  have hafter : ∀ (w : ScopedWalk) position, Comes (afterFirst s call r position a) (w.moved f) a f :=
    fun _ _ => .inr (run_afterFirst_of_stop hstop _)
  have hsign' : r = unary → NoSign v.cursor := fun hr => hv ▸ hsign hr
  unfold Comes
  rcases run_body_of_inner s call hinner with hrun | hrun
  · rw [hrun v hsign']
    exact comes_bind (hcall v hv hheld) (hafter v _)
  · rw [hrun v hsign']
    exact comes_nested (comes_bind (hcall v.deeper hv hheld) (hafter v.deeper _))

/-- Wherever the given scopes are open, the rule comes from one cursor to the other with the operand. -/
def Reads (s : Setting) (held : List Scope) (r : Rule) (d : Cursor) (a : Operand) (f : Cursor) : Prop :=
  ∀ k (v : ScopedWalk), v.cursor = d → v.held = held → Comes (run s k r) v a f

/-- **From a rule to a looser one.**  Between an operand and the rules around it, no sign may stand. -/
theorem Inner.outward {P : Rule → Prop} (h : Inner q r) (hsign : q = operand → NoSign d) (hq : P q)
    (hstep : ∀ r r' : Rule, r.inner? = some r' → (r = unary → NoSign d) → P r' → P r) : P r := by
  induction h with
  | refl => exact hq
  | @outer r r' hr h ih =>
    refine hstep r r' hr ?_ ih
    rintro rfl
    cases hr
    cases h with
    | refl => exact hsign rfl
    | outer hr => cases hr

/-- What is read by a rule is read by a looser one as well, where the looser one stops.  The induction is on
the rules between the two. -/
theorem Reads.outward (hreads : Reads s held q d a f) (h : Inner q r) (hstops : r.Stops f)
    (hsign : q = operand → NoSign d) : Reads s held r d a f := by
  refine h.outward (P := fun r => r.Stops f → Reads s held r d a f) hsign (fun _ => hreads) ?_ hstops
  intro r r' hinner hunary hr' hstops k v hv hheld
  cases k with
  | zero => exact .inl ⟨_, v, rfl⟩
  | succ k => exact comes_body (hr' (hstops.inner hinner) k) hinner hstops.goesOn hunary hv hheld

/-- How many rules are inside of a rule. -/
def height : Rule → Nat
  | conditional => 12
  | coalescing => 11
  | projection => 10
  | disjunction => 9
  | conjunction => 8
  | containment => 7
  | bitwise => 6
  | comparison => 5
  | shift => 4
  | sum => 3
  | product => 2
  | unary => 1
  | operand => 0

/-- Each rule is one higher than the one inside of it. -/
theorem height_of_inner (h : r.inner? = some r') : r.height = r'.height + 1 := by
  cases r <;> cases h <;> rfl

/-- The same, with as many calls and levels left: the rule is not too deep. -/
def ReadsIn (n : Nat) (s : Setting) (held : List Scope) (r : Rule) (d : Cursor) (a : Operand) (f : Cursor) :
    Prop :=
  ∀ k (v : ScopedWalk), v.cursor = d → v.held = held → n ≤ k → v.depth + n ≤ Limits.nesting →
    (run s k r).run v = .ok a (v.moved f)

/-- **Each rule takes one call more than the rule inside of it**, and one level at most. -/
theorem ReadsIn.outward {n : Nat} (hreads : ReadsIn (n + q.height) s held q d a f) (h : Inner q r)
    (hstops : r.Stops f) (hsign : q = operand → NoSign d) : ReadsIn (n + r.height) s held r d a f := by
  refine h.outward (P := fun r => r.Stops f → ReadsIn (n + r.height) s held r d a f) hsign (fun _ => hreads) ?_
    hstops
  intro r r' hinner hunary hr' hstops k v hv hheld hk hdepth
  have hheight := height_of_inner hinner
  obtain ⟨k, rfl⟩ : ∃ k', k = k' + 1 := ⟨k - 1, by omega⟩
  have hthen : ∀ w : ScopedWalk, w.cursor = d → w.held = held → w.depth + (n + r'.height) ≤ Limits.nesting →
      ∀ position, (run s k r' >>= afterFirst s (run s k) r position).run w = .ok a (w.moved f) := by
    intro w hw hheld hdepth position
    rw [run_bind_of_ok (hr' (hstops.inner hinner) k w hw hheld (by omega) hdepth)]
    exact run_afterFirst_of_stop hstops.goesOn position
  have hsign' : r = unary → NoSign v.cursor := fun hr => hv ▸ hunary hr
  show (body s (run s k) r).run v = .ok a (v.moved f)
  rcases run_body_of_inner s (run s k) hinner with hrun | hrun
  · rw [hrun v hsign']
    exact hthen v hv hheld (by omega) _
  · rw [hrun v hsign']
    exact run_nested_of_ok (by omega) (hthen v.deeper hv hheld (by simp only [Walk.deeper]; omega) _)

/-- Wherever the given scopes are open, with as many calls and levels left, the rule fails at the cursor in
this way. -/
def FailsIn (n : Nat) (s : Setting) (held : List Scope) (r : Rule) (d : Cursor) (failure : Failure) : Prop :=
  ∀ k (v : ScopedWalk), v.cursor = d → v.held = held → n ≤ k → v.depth + n ≤ Limits.nesting →
    ∃ u, (run s k r).run v = .error failure u

/-- **A rule fails in the way in which the rule that it starts with fails.** -/
theorem FailsIn.outward {n : Nat} {failure : Failure} (hfails : FailsIn (n + q.height) s held q d failure)
    (h : Inner q r) (hsign : q = operand → NoSign d) : FailsIn (n + r.height) s held r d failure := by
  refine h.outward (P := fun r => FailsIn (n + r.height) s held r d failure) hsign hfails ?_
  intro r r' hinner hunary hr' k v hv hheld hk hdepth
  have hheight := height_of_inner hinner
  obtain ⟨k, rfl⟩ : ∃ k', k = k' + 1 := ⟨k - 1, by omega⟩
  have hthen : ∀ w : ScopedWalk, w.cursor = d → w.held = held → w.depth + (n + r'.height) ≤ Limits.nesting →
      ∀ position, ∃ u, (run s k r' >>= afterFirst s (run s k) r position).run w = .error failure u := by
    intro w hw hheld hdepth position
    obtain ⟨u, hrun⟩ := hr' k w hw hheld (by omega) hdepth
    exact ⟨u, run_bind_of_error hrun⟩
  have hsign' : r = unary → NoSign v.cursor := fun hr => hv ▸ hunary hr
  show ∃ u, (body s (run s k) r).run v = .error failure u
  rcases run_body_of_inner s (run s k) hinner with hrun | hrun
  · rw [hrun v hsign']
    exact hthen v hv hheld (by omega) _
  · obtain ⟨u, hdeeper⟩ := hthen v.deeper hv hheld (by simp only [Walk.deeper]; omega) v.cursor.current.start
    rw [hrun v hsign', run_nested_of_error (by omega) hdeeper]
    exact ⟨_, rfl⟩

/-- Wherever the given scopes are open, the rule fails at the cursor. -/
def FailsAt (s : Setting) (held : List Scope) (r : Rule) (d : Cursor) : Prop :=
  ∀ k (v : ScopedWalk), v.cursor = d → v.held = held → ∀ a u, (run s k r).run v ≠ .ok a u

/-- **A rule fails where it starts with one that fails.** -/
theorem FailsAt.outward (hfails : FailsAt s held q d) (h : Inner q r) (hsign : q = operand → NoSign d) :
    FailsAt s held r d := by
  refine h.outward (P := fun r => FailsAt s held r d) hsign hfails ?_
  intro r r' hinner hunary hr' k v hv hheld a u hrun
  cases k with
  | zero => cases hrun
  | succ k =>
    have hthen : ∀ w : ScopedWalk, w.cursor = d → w.held = held → ∀ position b t,
        (run s k r' >>= afterFirst s (run s k) r position).run w ≠ .ok b t := by
      intro w hw hheld position b t hrun
      obtain ⟨c, x, hfirst, -⟩ := eq_ok_of_bind hrun
      exact hr' k w hw hheld c x hfirst
    have hsign' : r = unary → NoSign v.cursor := fun hr => hv ▸ hunary hr
    rcases run_body_of_inner s (run s k) hinner with hbody | hbody
    · exact hthen v hv hheld _ a u ((hbody v hsign').symm.trans hrun)
    · obtain ⟨-, t, hdeeper, -⟩ := eq_ok_of_nested ((hbody v hsign').symm.trans hrun)
      exact hthen v.deeper hv hheld _ a t hdeeper

/-! ## §4. What is attached to an operand. -/

/-- Wherever the given scopes are open, an operand is read, and the loop over what is attached to it goes on
with the given one, unless it is too deep. -/
def Begins (s : Setting) (held : List Scope) (d : Cursor) (a : Operand) (f : Cursor) : Prop :=
  ∀ k (v : ScopedWalk), v.cursor = d → v.held = held → ((run s (k + 1) operand).run v).TooDeep ∨
    ∃ n, (run s (k + 1) operand).run v = (repeatUpTo (attachedStep s (run s k)) n a).run (v.moved f)

/-- One thing more is attached to the operand. -/
def Attaches (s : Setting) (held : List Scope) (f : Cursor) (a b : Operand) (g : Cursor) : Prop :=
  ∀ k (v : ScopedWalk), v.cursor = f → v.held = held → Comes (attachedStep s (run s k) a) v (true, b) g

/-- What the rule for operands without attachments reads is a beginning of one with them. -/
theorem begins_of_primary (h : ∀ k (v : ScopedWalk), v.cursor = d → v.held = held →
    Comes (primary s (run s k)) v a f) : Begins s held d a f := by
  intro k v hv hheld
  have hrun : (run s (k + 1) operand).run v = (primary s (run s k) >>= attached s (run s k)).run v := rfl
  rw [hrun]
  rcases h k v hv hheld with hdeep | hprimary
  · exact .inl (Enclosure.tooDeep_bind hdeep _)
  · rw [run_bind_of_ok hprimary]
    exact .inr ⟨f.size + 2, rfl⟩

/-- **An operand with one thing more attached to it.** -/
theorem Begins.attach (h : Begins s held d a f) (hattach : Attaches s held f a b g) : Begins s held d b g := by
  intro k v hv hheld
  rcases h k v hv hheld with hdeep | ⟨n, hrun⟩
  · exact .inl hdeep
  rw [hrun]
  cases n with
  | zero => exact .inl ⟨_, _, rfl⟩
  | succ n =>
    rcases hattach k (v.moved f) rfl hheld with hdeep | hstep
    · exact .inl (Enclosure.tooDeep_bind hdeep _)
    · exact .inr ⟨n, run_bind_of_ok hstep⟩

/-- **An operand to which nothing more is attached.** -/
theorem Begins.reads (h : Begins s held d a f) (hstop : operand.goesOn f = false) :
    Reads s held operand d a f := by
  intro k v hv hheld
  cases k with
  | zero => exact .inl ⟨_, v, rfl⟩
  | succ k =>
    rcases h k v hv hheld with hdeep | ⟨n, hrun⟩
    · exact .inl hdeep
    cases n with
    | zero =>
      rw [Comes, hrun]
      exact .inl ⟨_, _, rfl⟩
    | succ n =>
      refine .inr (hrun.trans ?_)
      exact run_bind_of_ok (run_attachedStep_of_stop a hstop)

/-- An operand to which nothing can be attached that stands there. -/
theorem Begins.fails (h : Begins s held d a f) (hstep : ∀ k (v : ScopedWalk), v.cursor = f → v.held = held →
    ∀ b u, (attachedStep s (run s k) a).run v ≠ .ok b u) : FailsAt s held operand d := by
  intro k v hv hheld b u hok
  cases k with
  | zero => cases hok
  | succ k =>
    rcases h k v hv hheld with ⟨position, t, hdeep⟩ | ⟨n, hrun⟩
    · cases hdeep.symm.trans hok
    cases n with
    | zero => cases hrun.symm.trans hok
    | succ n =>
      obtain ⟨next, t, hfirst, -⟩ := eq_ok_of_bind (hrun.symm.trans hok)
      exact hstep k (v.moved f) rfl hheld next t hfirst

end Rule

end TypeAhead.Typing
