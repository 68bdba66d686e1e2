/-
  TypeAhead.Proofs.Termination — WALKS COME TO AN END.

  A rule that succeeds was called on a token, and it leaves the walk on a later one.
  That bounds everything that goes round: a loop has no more rounds than there are
  tokens ahead, and one to see that it is over, and the calls under way are no more
  than the levels, and for the locator the tokens, allow.

  So the budgets of the two walkers are there for the sake of their definitions alone.
  A loop comes to what its rounds come to, and a walk to the same whatever the calls
  beyond its budget would do.

      Advances            from one token to a later one
      walks_terminate     the locator and typing
-/
import TypeAhead.Proofs.Fragment.Progress
import TypeAhead.Proofs.Typing.Confined
import TypeAhead.Proofs.Typing.Progress

namespace TypeAhead

open Walker

/-! ## §1. Later tokens of a text. -/

namespace OnText

variable {text : List Char} {c d : Cursor}

theorem ahead_le_size (h : OnText text c) : c.ahead ≤ c.size + 1 := by
  cases h with
  | read h => exact h.ahead_le_size
  | negated h hminus hnext => exact (h.next (Token.isFinish_of_kind hminus nofun) hnext).ahead_le_size

/-- The token behind a number that has taken its minus is the one behind the number. -/
theorem start_lt_next (h : OnText text c) (hc : c.current.isFinish = false) (hnext : c.next = .ok d) :
    (∃ past, Reaches text past d) ∧ c.current.start < d.current.start := by
  cases h with
  | read h =>
    have hd := h.next hc hnext
    exact ⟨⟨_, hd⟩, h.start_lt hd (Nat.lt_succ_self _)⟩
  | @negated past m r h hminus hread =>
    -- The number starts where its minus does; the token behind it is two steps from there.
    have hr : r.current.isFinish = false := hc
    have hsame : Cursor.next { r with current := r.current.negated m.current } = r.next :=
      Cursor.next_congr rfl rfl rfl rfl hr
    have hd := (h.next (Token.isFinish_of_kind hminus nofun) hread).next hr (hsame ▸ hnext)
    exact ⟨⟨_, hd⟩, h.start_lt hd (Nat.lt_succ_of_lt (Nat.lt_succ_self _))⟩

/-- Later tokens of a text start later. -/
theorem start_lt_further (h : OnText text c) (hd : c.Further d) :
    (∃ past, Reaches text past d) ∧ c.current.start < d.current.start := by
  induction hd with
  | next hc hnext => exact h.start_lt_next hc hnext
  | after hc hnext _ ih =>
    obtain ⟨⟨past, hreached⟩, hlt⟩ := h.start_lt_next hc hnext
    obtain ⟨hfurther, hlt'⟩ := ih (.read hreached)
    exact ⟨hfurther, Nat.lt_trans hlt hlt'⟩

end OnText

/-! ## §2. Rules, loops and recursions. -/

section

variable {σ α : Type} {text : List Char} {w v : Walk σ}

/-- The one cursor stands on a token, not at the end, and reading on from there leads to the other one; in
a text the token there starts later. -/
structure Advances (text : List Char) (c d : Cursor) : Prop where
  entered : c.current.isFinish = false
  further : c.Further d
  later : OnText text c → (∃ past, Reaches text past d) ∧ c.current.start < d.current.start

theorem advances_of_consumes {x : Walker σ α} (hx : Consumes x) {a : α} (hrun : x.run w = .ok a v) :
    Advances text w.cursor v.cursor :=
  have hfurther := hx w a v hrun
  ⟨hfurther.isFinish_eq, hfurther, fun h => h.start_lt_further hfurther⟩

end

/-- What the locator does in a text comes to an end: the rules, by which tokens are taken, the loops and
the walk. -/
structure Fragment.Terminates (parsing : Parsing) (text : List Char) : Prop where
  rules : ∀ {k : Nat} {r : Rule} {w v : Walk (List Nat)}, Rule.needsToken r →
    (Rule.run parsing k r).run w = .ok () v → Advances text w.cursor v.cursor
  loops : ∀ {k : Nat} {α : Type} {step : α → Locator (Bool × α)},
    Rule.Loop parsing (Rule.run parsing k) α step →
      RoundsConsume step ∧ ∀ a (w : Walk (List Nat)), OnText text w.cursor → ComesToEnd step a w
  walk : ∀ (base : Rule → Locator Unit) {k : Nat} {c : Cursor}, Cursor.open? text = .ok c →
    Rule.budget c.size ≤ k → (unroll (Rule.body parsing) base k .conditional).run ⟨c, 0, []⟩ = walk parsing c

theorem Fragment.terminates (parsing : Parsing) (text : List Char) : Terminates parsing text where
  rules {k _ _ _} hr hrun := advances_of_consumes ((Rule.forward_run parsing k).consumes hr) hrun
  loops {k _ _} h :=
    have hrounds := Rule.roundsConsume_of_loop (Rule.forward_run parsing k) h
    ⟨hrounds, fun a _ hw => comesToEnd_of_consumes hrounds a hw.ahead_le_size⟩
  walk base _ _ hopen hk := unroll_eq_walk parsing base hopen hk

/-- What typing does in a text comes to an end. -/
structure Typing.Terminates (s : Setting) (text : List Char) : Prop where
  rules : ∀ {k : Nat} {r : Rule} {w v : ScopedWalk} {a : Operand}, (Rule.run s k r).run w = .ok a v →
    Advances text w.cursor v.cursor
  primary : ∀ {k : Nat} {w v : ScopedWalk} {a : Operand}, (Rule.primary s (Rule.run s k)).run w = .ok a v →
    Advances text w.cursor v.cursor
  loops : ∀ {k : Nat} {α : Type} {step : α → Typer (Bool × α)}, Rule.Loop s (Rule.run s k) α step →
    RoundsConsume step ∧ ∀ a (w : ScopedWalk), OnText text w.cursor → ComesToEnd step a w
  names : ∀ (qualified : String) {c : Cursor}, OnText text c →
    ∃ n o, n ≤ c.ahead + 1 ∧ Rule.NameRounds s qualified c n o ∧
      Rule.qualifiedType? s qualified c (c.size + 2) = o
  walk : ∀ (base : Rule → Typer Operand) {k : Nat} (r : Rule) (w : ScopedWalk), Rule.budget ≤ k →
    (unroll (Rule.body s) base k r).run w = (Rule.run s Rule.budget r).run w

theorem Typing.terminates (s : Setting) (text : List Char) : Terminates s text where
  rules {k r _ _ _} hrun := advances_of_consumes (Rule.consumes_run s k r) hrun
  primary {k _ _ _} hrun := advances_of_consumes (Rule.consumes_primary s k) hrun
  loops h :=
    have hrounds := Rule.roundsConsume_of_loop h
    ⟨hrounds, fun a _ hw => comesToEnd_of_consumes hrounds a hw.ahead_le_size⟩
  names qualified c hc := by
    obtain ⟨n, o, hn, hrounds⟩ := Rule.nameRounds s qualified c
    have hsize := hc.ahead_le_size
    exact ⟨n, o, hn, hrounds, hrounds.qualifiedType?_eq (by omega)⟩
  walk base _ r w hk := Rule.unroll_eq_run s base hk r w

/-! ## §3. Both walkers. -/

/-- **Both walks come to an end.**  In the locator and in typing, whatever the text, a rule that succeeds was
called on a token and has gone past it; every loop is over after no more rounds than there are tokens ahead,
and one to see that it is over; and neither the loops nor the recursion come to the end of a budget. -/
theorem walks_terminate (parsing : Parsing) (s : Typing.Setting) (text : List Char) :
    Fragment.Terminates parsing text ∧ Typing.Terminates s text :=
  ⟨Fragment.terminates parsing text, Typing.terminates s text⟩

/-- Both walkers go past a number with a minus in parentheses, to the end of the text. -/
theorem walks_terminate_of_negative :
    ∃ c d, Cursor.open? "(-1)".toList = .ok c ∧ d.current.isFinish = true ∧
      (Fragment.Rule.run {} 32 .conditional).run ⟨c, 0, []⟩ = .ok () ⟨d, 0, [0]⟩ ∧
      (Typing.Rule.run default 32 .conditional).run ⟨c, 0, []⟩ =
        .ok { Operand.predefined Known.int32 with form := .integer } ⟨d, 0, []⟩ ∧
      Advances "(-1)".toList c d := by
  obtain ⟨hlocator, -⟩ := walks_terminate {} default "(-1)".toList
  have hrun : (Fragment.Rule.run {} 32 .conditional).run ⟨⟨4, 1, "-1)".toList, ⟨.openParen, "(", 0⟩⟩, 0, []⟩ =
      .ok () ⟨⟨4, 4, [], ⟨.finish, "", 4⟩⟩, 0, [0]⟩ := rfl
  exact ⟨_, _, rfl, rfl, hrun, rfl, hlocator.rules (by decide) hrun⟩

end TypeAhead
