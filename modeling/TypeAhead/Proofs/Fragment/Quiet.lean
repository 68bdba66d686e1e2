/-
  TypeAhead.Proofs.Fragment.Quiet — RULES WHERE THERE IS NO TOKEN.

  At the end of a text there is nothing to read.  What needs a token fails there,
  and what succeeds there changes nothing but the depth.

      quiet_bind     quiet rules in a row
      never_run      but for two, no rule succeeds where there is no token
-/
import TypeAhead.Proofs.Fragment.Edge

namespace TypeAhead.Fragment

open Walker

variable {α β : Type}

/-! ## §1. Needing a token and doing nothing. -/

/-- At the end of a text the rule does not succeed. -/
def Never (x : Locator α) : Prop :=
  ∀ w, w.cursor.current.isFinish = true → ∀ a v, x.run w ≠ .ok a v

/-- At the end of a text the rule changes nothing but the depth, if it succeeds. -/
def Quiet (x : Locator α) : Prop :=
  ∀ w, w.cursor.current.isFinish = true → ∀ a v, x.run w = .ok a v → Rule.SamePlace w v

/-- What does not succeed changes nothing in doing so. -/
theorem Never.quiet {x : Locator α} (h : Never x) : Quiet x :=
  fun w hw a v hrun => absurd hrun (h w hw a v)

/-- It suffices that the first rule does not succeed. -/
theorem never_bind_left {x : Locator α} (hx : Never x) (f : α → Locator β) : Never (x >>= f) := by
  intro w hw b v hrun
  obtain ⟨a, u, hxw, -⟩ := eq_ok_of_bind hrun
  exact hx w hw a u hxw

/-- It suffices that the second rule does not succeed, if the first one stays at the end of the text. -/
theorem never_bind_right {x : Locator α} (hx : Quiet x) {f : α → Locator β}
    (hf : ∀ a, Never (f a)) : Never (x >>= f) := by
  intro w hw b v hrun
  obtain ⟨a, u, hxw, hrun⟩ := eq_ok_of_bind hrun
  have hu : u.cursor = w.cursor := (hx w hw a u hxw).1
  exact hf a u (hu ▸ hw) b v hrun

/-- One rule after the other: the second one starts at the end of the text as well. -/
theorem quiet_bind {x : Locator α} (hx : Quiet x) {f : α → Locator β} (hf : ∀ a, Quiet (f a)) :
    Quiet (x >>= f) := by
  intro w hw b v hrun
  obtain ⟨a, u, hxw, hrun⟩ := eq_ok_of_bind hrun
  obtain ⟨hcursor, hheld⟩ := hx w hw a u hxw
  obtain ⟨hcursor', hheld'⟩ := hf a u (hcursor ▸ hw) b v hrun
  exact ⟨hcursor'.trans hcursor, hheld'.trans hheld⟩

theorem quiet_pure (a : α) : Quiet (pure a) := by
  intro w _ b v hrun
  cases hrun
  exact ⟨rfl, rfl⟩

theorem quiet_look (f : Cursor → α) : Quiet (look f) := by
  intro w _ b v hrun
  cases hrun
  exact ⟨rfl, rfl⟩

/-- At the end of a text, to go on is to stay. -/
theorem quiet_advance : Quiet advance := by
  intro w hw a v hrun
  have hnext : w.cursor.next = .ok w.cursor := if_pos hw
  obtain ⟨c, hnext', rfl⟩ := eq_ok_of_advance hrun
  cases hnext.symm.trans hnext'
  exact ⟨rfl, rfl⟩

/-- A choice of which only one side comes into question at the end of a text. -/
theorem never_ifLook {test : Cursor → Bool} {y z : Locator α}
    (htest : ∀ c, c.current.isFinish = true → test c = false) (hz : Never z) :
    Never (do if ← look test then y else z) := by
  intro w hw a v hrun
  have hrun : (if test w.cursor then y else z).run w = .ok a v := hrun
  rw [htest _ hw] at hrun
  exact hz w hw a v hrun

/-- A choice that is decided by the end of the text. -/
theorem never_ifLook_of_test {test : Cursor → Bool} {y z : Locator α}
    (htest : ∀ c, c.current.isFinish = true → test c = true) (hy : Never y) :
    Never (do if ← look test then y else z) := by
  intro w hw a v hrun
  have hrun : (if test w.cursor then y else z).run w = .ok a v := hrun
  rw [htest _ hw] at hrun
  exact hy w hw a v hrun

/-- A rule that the end of the text does not ask for. -/
theorem quiet_onlyIf {test : Cursor → Bool} (x : Locator Unit)
    (htest : ∀ c, c.current.isFinish = true → test c = false) : Quiet (onlyIf test x) := by
  intro w hw a v hrun
  rw [Rule.run_onlyIf_of_not (htest _ hw)] at hrun
  cases hrun
  exact ⟨rfl, rfl⟩

/-- A loop for which the end of the text does not ask. -/
theorem quiet_goOn {test : Cursor → Bool} (step : Locator Unit) (budget : Option Nat)
    (htest : ∀ c, c.current.isFinish = true → test c = false) :
    Quiet (goOn test step budget) := by
  intro w hw a v hrun
  rcases Rule.run_goOn_of_not step budget (htest _ hw) with hdeep | hok
  · obtain ⟨position, u, hdeep⟩ := hdeep
    rw [hdeep] at hrun
    cases hrun
  · rw [hok] at hrun
    cases hrun
    exact ⟨rfl, rfl⟩

/-- A loop, by induction on its budget. -/
theorem quiet_repeatUpTo {step : α → Locator (Bool × α)} (hstep : ∀ a, Quiet (step a))
    (budget : Nat) (a : α) : Quiet (repeatUpTo step budget a) := by
  induction budget generalizing a with
  | zero =>
    intro w _ b v hrun
    cases hrun
  | succ budget ih =>
    refine quiet_bind (hstep a) ?_
    rintro ⟨again, b⟩
    cases again with
    | true => exact ih b
    | false => exact quiet_pure b

/-- To close an operand is not to move. -/
theorem quiet_closeOperand : Quiet Rule.closeOperand := by
  intro w hw a v hrun
  have hrun : (.ok () (Rule.closed w) : Located) = .ok a v := hrun
  cases hrun
  exact ⟨rfl, if_pos hw⟩

theorem never_fail (cause : Cause) : Never (fail cause : Locator α) := by
  intro w _ a v hrun
  cases hrun

theorem never_failAt (position : Nat) (cause : Cause) : Never (failAt position cause : Locator α) := by
  intro w _ a v hrun
  cases hrun

theorem never_kind {f : TokenKind → Locator α} (hf : Never (f .finish)) : Never (kind >>= f) := by
  intro w hw a v hrun
  have hkind : w.cursor.current.kind = .finish := Token.isFinish_iff.1 hw
  have hrun : (f w.cursor.current.kind).run w = .ok a v := hrun
  rw [hkind] at hrun
  exact hf w hw a v hrun

/-- A demand that the end of the text does not meet. -/
theorem never_demand {test : Cursor → Bool} {cause : Cause}
    (htest : ∀ c, c.current.isFinish = true → test c = false) : Never (demand test cause) := by
  intro w hw a v hrun
  rw [run_demand, htest _ hw] at hrun
  cases hrun

/-- A test for other kinds of tokens fails at the end of a text. -/
theorem isKind_finish {kind : TokenKind} (hkind : kind ≠ .finish) {c : Cursor}
    (hc : c.current.isFinish = true) : c.isKind kind = false := by
  have hc : c.current.kind = .finish := Token.isFinish_iff.1 hc
  simpa [Cursor.isKind, hc] using hkind.symm

/-- The end of a text is none of these kinds. -/
theorem isAny_finish {kinds : List TokenKind} (hkinds : .finish ∉ kinds) {c : Cursor}
    (hc : c.current.isFinish = true) : c.isAny kinds = false := by
  have hc : c.current.kind = .finish := Token.isFinish_iff.1 hc
  simpa [Cursor.isAny, hc] using hkinds

/-- The end of a text is no word. -/
theorem isWord_finish {word : String} {c : Cursor} (hc : c.current.isFinish = true) :
    c.isWord word = false := by
  have hc : c.current.kind = .finish := Token.isFinish_iff.1 hc
  simp [Cursor.isWord, hc]

/-- A token of a kind is not there at the end of a text. -/
theorem never_expect {kind : TokenKind} {cause : Cause} (hkind : kind ≠ .finish) :
    Never (expect kind cause) :=
  never_bind_left (never_demand fun _ hc => isKind_finish hkind hc) _

/-- One level deeper, a rule that needs a token needs one. -/
theorem never_nested {x : Locator α} (hx : Never x) : Never (nested x) := by
  intro w hw a v hrun
  obtain ⟨-, u, hinner, -⟩ := eq_ok_of_nested hrun
  exact hx w.deeper hw a u hinner

/-! ## §2. Rules. -/

namespace Rule

variable {parsing : Parsing} {call : Rule → Locator Unit}

/-- The rules that need a token.  A chain of names may be over, and a text is read only where there
is a literal. -/
abbrev needsToken (r : Rule) : Prop := r ≠ nameChain ∧ r ≠ text

/-- The end of a text is no sign. -/
theorem isSign_finish {c : Cursor} (hc : c.current.isFinish = true) : isSign c = false := by
  rw [isSign, isAny_finish (by decide) hc, isWord_finish hc]
  rfl

/-- No body of a rule that needs a token succeeds at the end of a text, given that its calls do not. -/
theorem never_body (hcall : ∀ r, needsToken r → Never (call r)) (r : Rule) (hr : needsToken r) :
    Never (body parsing call r) := by
  -- Each rule calls another one first that needs a token, or asks for a token of its own.
  cases r with
  | conditional =>
    exact never_nested (never_bind_left (hcall coalescing (by decide)) _)
  | coalescing => exact never_bind_left (hcall projection (by decide)) _
  | projection => exact never_bind_left (hcall disjunction (by decide)) _
  | disjunction => exact never_bind_left (hcall conjunction (by decide)) _
  | conjunction => exact never_bind_left (hcall containment (by decide)) _
  | containment => exact never_bind_left (hcall bitwise (by decide)) _
  | bitwise => exact never_bind_left (hcall comparison (by decide)) _
  | comparison => exact never_bind_left (hcall shift (by decide)) _
  | shift => exact never_bind_left (hcall sum (by decide)) _
  | sum => exact never_bind_left (hcall product (by decide)) _
  | product => exact never_bind_left (hcall unary (by decide)) _
  | unary =>
    exact never_nested (never_ifLook (fun _ => isSign_finish) (hcall operand (by decide)))
  | operand =>
    -- The operand is opened first, which does not move the walk.
    intro w hw a v hrun
    exact never_bind_left (hcall primary (by decide)) _ (opened w) hw a v hrun
  | primary => exact never_kind (never_fail _)
  | member => exact never_bind_left (never_demand fun _ hc => isKind_finish (by decide) hc) _
  | nameChain => exact absurd rfl hr.1
  | argumentList | elementAccess | parenthesized => exact never_bind_left (never_expect (by decide)) _
  | arguments => exact never_bind_left (hcall argument (by decide)) _
  | argument =>
    intro w hw a v hrun
    have hkind : w.cursor.current.kind = .finish := Token.isFinish_iff.1 hw
    have hout : (fun c : Cursor => c.isOneOf outWords []) w.cursor = false := by
      simp [Cursor.isOneOf, hkind]
    -- The end of the text is no `out`, so that an expression is called for.
    have hfalse : discardedOut.run w = .ok false w := by
      show (if (fun c : Cursor => c.isOneOf outWords []) w.cursor then _ else pure false :
        Locator Bool).run w = _
      rw [hout]
      rfl
    have hrun : ((discardedOut.run w).andThen fun found =>
      if found then pure () else call conditional) = .ok a v := hrun
    rw [hfalse] at hrun
    exact hcall conditional (by decide) w hw a v hrun
  | creation =>
    exact never_bind_right quiet_advance fun _ => never_bind_left
      (never_demand fun _ hc => isAny_finish (by decide) hc) _
  | text => exact absurd rfl hr.2

/-- **But for two, no rule succeeds where there is no token.** -/
theorem never_run (parsing : Parsing) (budget : Nat) (r : Rule) (hr : needsToken r) :
    Never (run parsing budget r) := by
  induction budget generalizing r with
  | zero => exact never_fail _
  | succ budget ih => exact never_body ih r hr

end Rule

end TypeAhead.Fragment
