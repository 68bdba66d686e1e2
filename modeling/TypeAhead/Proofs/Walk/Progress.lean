/-
  TypeAhead.Proofs.Walk.Progress — WALKS GO ON.

  The end of a text repeats, so a walk that stayed where it is could go round for
  ever.  A rule never goes back, and it leaves the walk as deep as it was; a rule
  that takes a token leaves fewer of them ahead.

  Rules are compared with the same rules over other calls, since what a recursion
  comes to when its budget is used up is such a call.  Loops are compared with what
  they do with no budget at all: a loop of which every round takes a token is over
  before its budget is.

      Cursor.Further            from one token to a later one
      steady_bind               rules that come to the same and go on
      consumes_bind             rules that take a token
      comesToEnd_of_consumes    a loop is over by itself
-/
import TypeAhead.Proofs.Token.Reading
import TypeAhead.Proofs.Walk.Contract

namespace TypeAhead

/-! ## §1. Later tokens. -/

/-- Reading on from the token of the first cursor leads to that of the second one, which comes later. -/
inductive Cursor.Further : Cursor → Cursor → Prop where
  | next {c d : Cursor} (hc : c.current.isFinish = false) (hnext : c.next = .ok d) : Further c d
  | after {c d e : Cursor} (hc : c.current.isFinish = false) (hnext : c.next = .ok d) (h : Further d e) :
      Further c e

namespace Cursor.Further

variable {c d e : Cursor}

/-- There is nothing behind the end of a text. -/
theorem isFinish_eq (h : Further c d) : c.current.isFinish = false := by
  cases h with
  | next hc => exact hc
  | after hc => exact hc

/-- What is further on from there is further on from here. -/
theorem trans (h : Further c d) (h' : Further d e) : Further c e := by
  induction h with
  | next hc hnext => exact .after hc hnext h'
  | after hc hnext _ ih => exact .after hc hnext (ih h')

/-- Fewer tokens are ahead of a later one. -/
theorem ahead_lt (h : Further c d) : d.ahead < c.ahead := by
  induction h with
  | next hc hnext => exact ahead_next hc hnext
  | after hc hnext _ ih => exact Nat.lt_trans ih (ahead_next hc hnext)

/-- How the token is worded, and where it starts, makes no difference to what comes later. -/
theorem of_worded {t : Token} (hkind : t.kind = c.current.kind) (h : Further { c with current := t } d) :
    Further c d := by
  have hfinish : c.current.isFinish = false := by
    have := h.isFinish_eq
    rwa [Token.isFinish, hkind] at this
  have hsame : ({ c with current := t } : Cursor).next = c.next := Cursor.next_congr rfl rfl rfl hkind hfinish
  cases h with
  | next _ hnext => exact .next hfinish (hsame ▸ hnext)
  | after _ hnext h => exact .after hfinish (hsame ▸ hnext) h

end Cursor.Further

namespace Walker

variable {σ α β : Type} {d : Nat} {w v u : Walk σ}

/-! ## §2. Rules that go on. -/

/-- Where a rule leaves a walk when it succeeds: as deep as it was, on the same token or on a later one. -/
structure GoesOn (w v : Walk σ) : Prop where
  depth_eq : v.depth = w.depth
  place : v.cursor = w.cursor ∨ w.cursor.Further v.cursor

/-- A walk that stays where it is goes on. -/
theorem GoesOn.refl (w : Walk σ) : GoesOn w w := ⟨rfl, .inl rfl⟩

/-- Going on twice. -/
theorem GoesOn.trans (h : GoesOn w v) (h' : GoesOn v u) : GoesOn w u := by
  refine ⟨h'.depth_eq.trans h.depth_eq, ?_⟩
  rcases h.place with hwv | hwv
  · exact hwv ▸ h'.place
  · rcases h'.place with hvu | hvu
    · exact .inr (hvu ▸ hwv)
    · exact .inr (hwv.trans hvu)

/-- A later place is one to which the walk goes on. -/
theorem GoesOn.further (h : w.cursor.Further v.cursor) (hgoes : GoesOn v u) : w.cursor.Further u.cursor := by
  rcases hgoes.place with hvu | hvu
  · exact hvu ▸ h
  · exact h.trans hvu

/-- Where a token is taken at last, a token has been taken. -/
theorem GoesOn.then_further (h : GoesOn w v) (hv : v.cursor.Further u.cursor) : w.cursor.Further u.cursor := by
  rcases h.place with hwv | hwv
  · exact hwv ▸ hv
  · exact hwv.trans hv

/-- Going past one token. -/
theorem goesOn_next {c : Cursor} (hnext : w.cursor.next = .ok c) : GoesOn w { w with cursor := c } := by
  refine ⟨rfl, ?_⟩
  cases hw : w.cursor.current.isFinish with
  | false => exact .inr (.next hw hnext)
  | true =>
    -- The end repeats: going past it is the one move that gets nowhere.
    rw [Cursor.next, if_pos hw] at hnext
    cases hnext
    exact .inl rfl

/-- Started at the walk, the two rules have the same outcome and go on. -/
structure SteadyAt (w : Walk σ) (x y : Walker σ α) : Prop where
  run_eq : y.run w = x.run w
  goesOn : ∀ {a v}, x.run w = .ok a v → GoesOn w v

/-- Started `d` levels deep, the two rules have the same outcome and go on. -/
def Steady (d : Nat) (x y : Walker σ α) : Prop := ∀ w : Walk σ, w.depth = d → SteadyAt w x y

/-- The rule goes on, from any depth. -/
abbrev Goes (x : Walker σ α) : Prop := ∀ d, Steady d x x

/-- Started at the walk, the rule takes a token if it succeeds. -/
def ConsumesFrom (w : Walk σ) (x : Walker σ α) : Prop := ∀ a v, x.run w = .ok a v → w.cursor.Further v.cursor

/-- The rule takes a token wherever it succeeds. -/
def Consumes (x : Walker σ α) : Prop := ∀ w, ConsumesFrom w x

variable {x y : Walker σ α} {f g : α → Walker σ β}

/-- One rule after the other.  The second one starts where the first one left the walk. -/
theorem steadyAt_bind (hx : SteadyAt w x y) (hf : ∀ a v, GoesOn w v → SteadyAt v (f a) (g a)) :
    SteadyAt w (x >>= f) (y >>= g) := by
  cases hrun : x.run w with
  | error failure v =>
    refine ⟨?_, fun h => ?_⟩
    · rw [run_bind_of_error hrun, run_bind_of_error (hx.run_eq.trans hrun)]
    · rw [run_bind_of_error hrun] at h
      cases h
  | ok a v =>
    have hv := hx.goesOn hrun
    refine ⟨?_, fun h => ?_⟩
    · rw [run_bind_of_ok hrun, run_bind_of_ok (hx.run_eq.trans hrun)]
      exact (hf a v hv).run_eq
    · rw [run_bind_of_ok hrun] at h
      exact hv.trans ((hf a v hv).goesOn h)

/-- **One rule after the other.** -/
theorem steady_bind (hx : Steady d x y) (hf : ∀ a, Steady d (f a) (g a)) :
    Steady d (x >>= f) (y >>= g) :=
  fun w hw => steadyAt_bind (hx w hw) fun a v hv => hf a v (hv.depth_eq.trans hw)

/-- A move that leaves the walk where it is. -/
theorem steady_move {step : Walk σ → Walk.Outcome σ α}
    (h : ∀ w a v, step w = .ok a v → GoesOn w v) : Steady d (move step) (move step) :=
  fun w _ => ⟨rfl, fun hrun => h w _ _ hrun⟩

theorem steady_pure (a : α) : Steady (σ := σ) d (pure a) (pure a) :=
  steady_move fun w _ _ h => by cases h; exact .refl w

/-- To look at the cursor does not move it. -/
theorem steady_look (i : Cursor → α) : Steady (σ := σ) d (look i) (look i) :=
  steady_move fun w _ _ h => by cases h; exact .refl w

theorem steady_stop (i : Cursor → Failure) : Steady (σ := σ) d (stop i : Walker σ α) (stop i) :=
  steady_move fun _ _ _ h => by cases h

theorem steady_fail (cause : Cause) : Steady (σ := σ) d (fail cause : Walker σ α) (fail cause) :=
  steady_stop _

/-- What is held may change; the cursor and the depth do not. -/
theorem steady_hold (i : Cursor → σ → σ) : Steady d (hold i) (hold i) :=
  steady_move fun w _ _ h => by cases h; exact ⟨rfl, .inl rfl⟩

theorem steady_ofExcept (e : Except Fault α) : Steady (σ := σ) d (ofExcept e) (ofExcept e) := by
  cases e with
  | ok a => exact steady_pure a
  | error fault => exact steady_stop fun _ => .fault fault

/-- Going on leads to the next token, or stays at the end of the text. -/
theorem steady_advance : Steady (σ := σ) d advance advance := by
  refine steady_move fun w a v h => ?_
  cases hnext : w.cursor.next with
  | ok c =>
    rw [hnext] at h
    cases h
    exact goesOn_next hnext
  | error fault =>
    rw [hnext] at h
    cases h

theorem steady_map {i : α → β} (hx : Steady d x y) : Steady d (i <$> x) (i <$> y) :=
  steady_bind hx fun a => steady_pure (i a)

/-- What follows a look at the current token. -/
theorem steady_lookThen {i : Cursor → α} (hf : ∀ a, Steady d (f a) (g a)) :
    Steady d (look i >>= f) (look i >>= g) :=
  steady_bind (steady_look i) hf

/-- The same, where it is known what is seen. -/
theorem steadyAt_lookThen {i : Cursor → α} (h : SteadyAt w (f (i w.cursor)) (g (i w.cursor))) :
    SteadyAt w (look i >>= f) (look i >>= g) :=
  ⟨h.run_eq, h.goesOn⟩

/-- Both branches of a choice by the current token. -/
theorem steady_ifLook {test : Cursor → Bool} {x y x' y' : Walker σ α} (hx : Steady d x y)
    (hx' : Steady d x' y') :
    Steady d (do if ← look test then x else x' : Walker σ α) (do if ← look test then y else y') :=
  steady_lookThen fun b => by
    cases b with
    | true => exact hx
    | false => exact hx'

/-- A rule that is left out where the test fails. -/
theorem steady_onlyIf {test : Cursor → Bool} {x y : Walker σ Unit} (hx : Steady d x y) :
    Steady d (onlyIf test x) (onlyIf test y) :=
  steady_ifLook hx (steady_pure ())

theorem steady_demand (test : Cursor → Bool) (cause : Cause) :
    Steady (σ := σ) d (demand test cause) (demand test cause) :=
  steady_ifLook (steady_pure ()) (steady_stop _)

/-- A demand that is met has done nothing, and one that is not fails. -/
theorem run_demandThen (test : Cursor → Bool) (cause : Cause) (f : Unit → Walker σ β) (w : Walk σ) :
    (demand test cause >>= f).run w =
      if test w.cursor then (f ()).run w else (fail cause : Walker σ β).run w := by
  have hdemand : (demand test cause : Walker σ Unit).run w =
      (if test w.cursor then pure () else fail cause : Walker σ Unit).run w := rfl
  split
  · rename_i htest
    rw [if_pos htest] at hdemand
    exact run_bind_of_ok hdemand
  · rename_i htest
    rw [if_neg htest] at hdemand
    exact run_bind_of_error hdemand

/-- What follows a demand knows that it is met. -/
theorem steadyAt_demandThen {test : Cursor → Bool} {cause : Cause} {f g : Unit → Walker σ β}
    (h : test w.cursor = true → SteadyAt w (f ()) (g ())) :
    SteadyAt w (demand test cause >>= f) (demand test cause >>= g) := by
  constructor
  · rw [run_demandThen, run_demandThen]
    split
    · rename_i htest
      exact (h htest).run_eq
    · rfl
  · intro a v hrun
    rw [run_demandThen] at hrun
    split at hrun
    · rename_i htest
      exact (h htest).goesOn hrun
    · cases hrun

theorem steady_expect (kind : TokenKind) (cause : Cause) :
    Steady (σ := σ) d (expect kind cause) (expect kind cause) :=
  steady_bind (steady_demand _ _) fun _ => steady_advance

/-- Between two changes of what is held, or of the depth, of which the second one undoes the first one. -/
theorem steadyAt_between {enter leave : Walk σ → Walk σ} (henter : (enter w).cursor = w.cursor)
    (hleave : ∀ u, (leave u).cursor = u.cursor)
    (hdepth : ∀ u, u.depth = (enter w).depth → (leave u).depth = w.depth) (hx : SteadyAt (enter w) x y) :
    SteadyAt w (between enter leave x) (between enter leave y) := by
  refine ⟨?_, fun h => ?_⟩
  · simp only [between, hx.run_eq]
  · obtain ⟨u, hrun, rfl⟩ := eq_ok_of_between h
    have hu := hx.goesOn hrun
    refine ⟨hdepth u hu.depth_eq, ?_⟩
    rw [hleave, ← henter]
    exact hu.place

/-- **One level deeper**, unless the limit is reached. -/
theorem steady_nested (hx : d < Limits.nesting → Steady (d + 1) x y) : Steady d (nested x) (nested y) := by
  rintro w rfl
  by_cases hdepth : Limits.nesting ≤ w.depth
  · -- At the limit neither rule is called, so nothing need be known of them.
    have hdeep : ∀ z : Walker σ α, (nested z).run w = (fail .tooDeep : Walker σ α).run w := fun z => if_pos hdepth
    refine ⟨(hdeep y).trans (hdeep x).symm, fun h => ?_⟩
    rw [hdeep] at h
    cases h
  · have hdeeper : ∀ z : Walker σ α, (nested z).run w = (between Walk.deeper Walk.shallower z).run w :=
      fun z => if_neg hdepth
    have hbetween : SteadyAt w (between Walk.deeper Walk.shallower x) (between Walk.deeper Walk.shallower y) :=
      steadyAt_between rfl (fun _ => rfl) (fun _ hu => congrArg (· - 1) hu)
        (hx (Nat.lt_of_not_le hdepth) w.deeper rfl)
    refine ⟨?_, fun h => ?_⟩
    · rw [hdeeper, hdeeper, hbetween.run_eq]
    · rw [hdeeper] at h
      exact hbetween.goesOn h

/-- A loop with a budget, by induction on it. -/
theorem steady_repeatUpTo {step step' : α → Walker σ (Bool × α)} (hstep : ∀ a, Steady d (step a) (step' a))
    (budget : Nat) (a : α) : Steady d (repeatUpTo step budget a) (repeatUpTo step' budget a) := by
  induction budget generalizing a with
  | zero => exact steady_fail .tooDeep
  | succ budget ih =>
    refine steady_bind (hstep a) fun next => ?_
    obtain ⟨again, b⟩ := next
    cases again with
    | true => exact ih b
    | false => exact steady_pure b

/-- A loop, which takes its budget from the text. -/
theorem steady_repeatStep {step step' : α → Walker σ (Bool × α)} (hstep : ∀ a, Steady d (step a) (step' a))
    (a : α) : Steady d (repeatStep step a) (repeatStep step' a) :=
  steady_lookThen fun c => steady_repeatUpTo hstep (c.size + 2) a

/-- The rounds of a loop that goes on as long as a test holds. -/
theorem repeatWhile_eq (test : Cursor → Bool) (step : Walker σ Unit) :
    repeatWhile test step = repeatStep (whileStep test step) () := rfl

theorem steady_repeatWhile {test : Cursor → Bool} {step step' : Walker σ Unit} (hstep : Steady d step step') :
    Steady d (repeatWhile test step) (repeatWhile test step') := by
  rw [repeatWhile_eq, repeatWhile_eq]
  exact steady_repeatStep (fun _ => steady_ifLook (steady_bind hstep fun _ => steady_pure _) (steady_pure _)) ()

/-- What follows something read from the text. -/
theorem steadyAt_ofExceptThen {e : Except Fault α} {f g : α → Walker σ β}
    (h : ∀ a, e = .ok a → SteadyAt w (f a) (g a)) : SteadyAt w (ofExcept e >>= f) (ofExcept e >>= g) := by
  cases e with
  | ok a => exact ⟨(h a rfl).run_eq, (h a rfl).goesOn⟩
  | error fault => exact ⟨rfl, fun hrun => by cases hrun⟩

/-- What follows a jump to a place to which the walk may go on. -/
theorem steadyAt_jumpThen {c : Cursor} {f g : Unit → Walker σ β} (hc : GoesOn w { w with cursor := c })
    (hf : Steady w.depth (f ()) (g ())) : SteadyAt w (jump c >>= f) (jump c >>= g) := by
  have hf := hf { w with cursor := c } rfl
  exact ⟨hf.run_eq, fun hrun => hc.trans (hf.goesOn hrun)⟩

/-! ## §3. Rules that take a token. -/

/-- What comes after a token that is taken. -/
theorem consumesFrom_bind (hx : ConsumesFrom w x) (hf : ∀ a, Goes (f a)) : ConsumesFrom w (x >>= f) := by
  intro b v hrun
  obtain ⟨a, u, hxw, hfa⟩ := eq_ok_of_bind hrun
  exact GoesOn.further (hx a u hxw) ((hf a u.depth u rfl).goesOn hfa)

/-- What comes before a token that is taken. -/
theorem consumesFrom_then (hx : Goes x) (hf : ∀ a u, GoesOn w u → ConsumesFrom u (f a)) :
    ConsumesFrom w (x >>= f) := by
  intro b v hrun
  obtain ⟨a, u, hxw, hfa⟩ := eq_ok_of_bind hrun
  have hu := (hx w.depth w rfl).goesOn hxw
  exact hu.then_further (hf a u hu b v hfa)

/-- A token is there still if there was one, or one has been taken already. -/
theorem consumesFrom_after (hx : Goes x) (hf : ∀ a, Goes (f a))
    (h : ∀ a u, u.cursor = w.cursor → ConsumesFrom u (f a)) : ConsumesFrom w (x >>= f) := by
  intro b v hrun
  obtain ⟨a, u, hxw, hfa⟩ := eq_ok_of_bind hrun
  rcases ((hx w.depth w rfl).goesOn hxw).place with hu | hu
  -- What comes first has left the walk where it was, so the token is still to be taken.
  · exact hu ▸ h a u hu b v hfa
  · exact GoesOn.further hu ((hf a u.depth u rfl).goesOn hfa)

/-- A rule that goes on takes a token if fewer of them are ahead when it succeeds. -/
theorem consumes_of_ahead_lt (hx : Goes x)
    (hlt : ∀ w a v, x.run w = .ok a v → v.cursor.ahead < w.cursor.ahead) : Consumes x := by
  intro w a v hrun
  refine ((hx w.depth w rfl).goesOn hrun).place.resolve_left fun hsame => ?_
  have hlt := hlt w a v hrun
  rw [hsame] at hlt
  exact Nat.lt_irrefl _ hlt

/-- It suffices that the first of two rules takes a token. -/
theorem consumes_bind (hx : Consumes x) (hf : ∀ a, Goes (f a)) : Consumes (x >>= f) :=
  fun w => consumesFrom_bind (hx w) hf

/-- A rule that always fails takes a token wherever it succeeds. -/
theorem consumes_stop (i : Cursor → Failure) : Consumes (stop i : Walker σ α) := by
  intro w a v h
  cases h

/-- Going on takes a token, save at the end of the text. -/
theorem consumesFrom_advance (hw : w.cursor.current.isFinish = false) : ConsumesFrom w (advance : Walker σ Unit) := by
  intro a v hrun
  obtain ⟨c, hnext, rfl⟩ := eq_ok_of_advance hrun
  exact .next hw hnext

/-- What follows the token that is there is no matter. -/
theorem consumesFrom_advanceThen {f : Unit → Walker σ β} (hw : w.cursor.current.isFinish = false)
    (hf : Goes (f ())) : ConsumesFrom w (advance >>= f) :=
  consumesFrom_bind (consumesFrom_advance hw) fun _ => hf

/-- What follows a look knows what was seen. -/
theorem consumesFrom_lookThen {i : Cursor → α} (h : ConsumesFrom w (f (i w.cursor))) : ConsumesFrom w (look i >>= f) :=
  h

/-- What follows a demand knows that it is met. -/
theorem consumesFrom_demandThen {test : Cursor → Bool} {cause : Cause} {f : Unit → Walker σ β}
    (hf : test w.cursor = true → ConsumesFrom w (f ())) : ConsumesFrom w (demand test cause >>= f) := by
  intro b v hrun
  rw [run_demandThen] at hrun
  split at hrun
  · rename_i htest
    exact hf htest b v hrun
  · cases hrun

/-- The token may be worded anew before it is taken. -/
theorem consumesFrom_wordedThen {i : Cursor → Cursor} {t : Token} {f : Unit → Walker σ β}
    (hi : i w.cursor = { w.cursor with current := t }) (hkind : t.kind = w.cursor.current.kind)
    (h : ConsumesFrom { w with cursor := i w.cursor } (f ())) : ConsumesFrom w (edit i >>= f) := by
  intro b v hrun
  have hfurther := h b v hrun
  dsimp only at hfurther
  rw [hi] at hfurther
  exact .of_worded hkind hfurther

/-- A token may be worded anew by what goes past it. -/
theorem steadyAt_wordedThen {i : Cursor → Cursor} {t : Token} {f g : Unit → Walker σ β}
    (hi : i w.cursor = { w.cursor with current := t }) (hkind : t.kind = w.cursor.current.kind)
    (hf : Steady w.depth (f ()) (g ())) (hconsumes : ConsumesFrom { w with cursor := i w.cursor } (f ())) :
    SteadyAt w (edit i >>= f) (edit i >>= g) := by
  have hf := hf { w with cursor := i w.cursor } rfl
  exact ⟨hf.run_eq, fun {a v} h => ⟨(hf.goesOn h).depth_eq, .inr (consumesFrom_wordedThen hi hkind hconsumes a v h)⟩⟩

/-- A token of a kind, other than the end of the text, is taken. -/
theorem consumes_expect {kind : TokenKind} (hkind : kind ≠ .finish) (cause : Cause) :
    Consumes (expect kind cause : Walker σ Unit) := by
  refine fun w => consumesFrom_demandThen fun htest => consumesFrom_advance ?_
  rw [Cursor.isKind, beq_iff_eq] at htest
  rw [Token.isFinish, htest, beq_eq_false_iff_ne]
  exact hkind

/-- One level deeper the same tokens are taken. -/
theorem consumes_nested (hx : Consumes x) : Consumes (nested x) := by
  intro w a v hrun
  obtain ⟨-, u, hinner, rfl⟩ := eq_ok_of_nested hrun
  exact hx w.deeper a u hinner

/-! ## §4. Loops without budgets. -/

/-- `Rounds step a w n o`: repeated from `a` as long as it asks for it, `step` goes `n` rounds from the
walk `w` and then comes to `o`. -/
inductive Rounds (step : α → Walker σ (Bool × α)) : α → Walk σ → Nat → Walk.Outcome σ α → Prop where
  | last {a b : α} {w v : Walk σ} (h : (step a).run w = .ok (false, b) v) : Rounds step a w 1 (.ok b v)
  | failed {a : α} {w v : Walk σ} {failure : Failure} (h : (step a).run w = .error failure v) :
      Rounds step a w 1 (.error failure v)
  | again {a b : α} {w v : Walk σ} {n : Nat} {o : Walk.Outcome σ α} (h : (step a).run w = .ok (true, b) v)
      (hrest : Rounds step b v n o) : Rounds step a w (n + 1) o

/-- A budget that is larger than the number of rounds is not used up. -/
theorem Rounds.repeatUpTo {step : α → Walker σ (Bool × α)} {a : α} {n : Nat} {o : Walk.Outcome σ α}
    (h : Rounds step a w n o) {budget : Nat} (hbudget : n ≤ budget) :
    (Walker.repeatUpTo step budget a).run w = o := by
  induction h generalizing budget with
  | last h =>
    obtain ⟨budget, rfl⟩ := Nat.exists_eq_add_of_le' hbudget
    rw [Walker.repeatUpTo, run_bind_of_ok h]
    rfl
  | failed h =>
    obtain ⟨budget, rfl⟩ := Nat.exists_eq_add_of_le' hbudget
    rw [Walker.repeatUpTo, run_bind_of_error h]
  | again h _ ih =>
    obtain ⟨budget, rfl⟩ := Nat.exists_eq_add_of_le' (Nat.le_of_add_left_le hbudget)
    rw [Walker.repeatUpTo, run_bind_of_ok h]
    exact ih (Nat.le_of_succ_le_succ hbudget)

/-- Started at the walk, a round has taken a token if it asks for another one. -/
def RoundFrom (w : Walk σ) (round : Walker σ (Bool × α)) : Prop :=
  ∀ a v, round.run w = .ok (true, a) v → w.cursor.Further v.cursor

/-- Each round has taken a token if it asks for another one. -/
def RoundsConsume (step : α → Walker σ (Bool × α)) : Prop := ∀ a w, RoundFrom w (step a)

/-- A round that takes a token may ask for another one. -/
theorem ConsumesFrom.round {round : Walker σ (Bool × α)} (h : ConsumesFrom w round) : RoundFrom w round :=
  fun a v hrun => h (true, a) v hrun

/-- A round that asks for no other one need take nothing. -/
theorem roundFrom_stop (a : α) (w : Walk σ) : RoundFrom w (pure (false, a)) := by
  intro b v h
  cases h

/-- What follows a look knows what was seen. -/
theorem roundFrom_lookThen {i : Cursor → β} {f : β → Walker σ (Bool × α)} (h : RoundFrom w (f (i w.cursor))) :
    RoundFrom w (look i >>= f) :=
  h

/-- There are no more rounds than tokens ahead, and one to see that it is over. -/
theorem rounds_of_consumes {step : α → Walker σ (Bool × α)} (hstep : RoundsConsume step) (a : α) (w : Walk σ) :
    ∃ n o, n ≤ w.cursor.ahead + 1 ∧ Rounds step a w n o := by
  generalize hn : w.cursor.ahead = n
  -- The induction is on the tokens ahead: a round may take several of them.
  induction n using Nat.strongRecOn generalizing a w with
  | ind n ih =>
    cases hrun : (step a).run w with
    | error failure v => exact ⟨1, _, Nat.le_add_left 1 n, .failed hrun⟩
    | ok next v =>
      obtain ⟨again, b⟩ := next
      cases again with
      | false => exact ⟨1, _, Nat.le_add_left 1 n, .last hrun⟩
      | true =>
        have hlt := (hstep a w b v hrun).ahead_lt
        obtain ⟨m, o, hm, hrest⟩ := ih v.cursor.ahead (hn ▸ hlt) b v rfl
        exact ⟨m + 1, o, by omega, .again hrun hrest⟩

/-- The loop is over by itself: after no more rounds than there are tokens ahead, and with no help of its
budget. -/
def ComesToEnd (step : α → Walker σ (Bool × α)) (a : α) (w : Walk σ) : Prop :=
  ∃ n o, n ≤ w.cursor.ahead + 1 ∧ Rounds step a w n o ∧ (repeatStep step a).run w = o

/-- **A loop is over by itself** if every round takes a token. -/
theorem comesToEnd_of_consumes {step : α → Walker σ (Bool × α)} (hstep : RoundsConsume step) (a : α)
    (hw : w.cursor.ahead ≤ w.cursor.size + 1) : ComesToEnd step a w := by
  obtain ⟨n, o, hn, hrounds⟩ := rounds_of_consumes hstep a w
  refine ⟨n, o, hn, hrounds, ?_⟩
  exact hrounds.repeatUpTo (show n ≤ w.cursor.size + 2 by omega)

/-- Where the test holds, what it lets go on has to take a token. -/
theorem roundsConsume_while {test : Cursor → Bool} {step : Walker σ Unit}
    (hstep : ∀ w, test w.cursor = true → ConsumesFrom w step) : RoundsConsume (whileStep test step) := by
  refine fun _ w => roundFrom_lookThen ?_
  split
  · rename_i htest
    exact (consumesFrom_bind (hstep w htest) fun _ _ => steady_pure _).round
  · exact roundFrom_stop _ w

/-! ## §5. Recursions without budgets. -/

/-- A recursion with a budget for the calls under way: with none left, a call is one of `base`. -/
def unroll {ρ : Type} (body : (ρ → Walker σ α) → ρ → Walker σ α) (base : ρ → Walker σ α) :
    Nat → ρ → Walker σ α
  | 0 => base
  | budget + 1 => body (unroll body base budget)

/-! ## §6. Names. -/

theorem steady_discardedOut : Steady (σ := σ) d discardedOut discardedOut :=
  steady_ifLook (steady_bind steady_advance fun _ => steady_bind (steady_demand _ _) fun _ =>
    steady_bind steady_advance fun _ => steady_pure _) (steady_pure _)

/-- What is discarded takes tokens; otherwise it is up to what follows. -/
theorem consumesFrom_discardedOutThen {f : Bool → Walker σ β} (hf : ∀ b, Goes (f b))
    (h : ConsumesFrom w (f false)) : ConsumesFrom w (discardedOut >>= f) := by
  cases hout : w.cursor.isOneOf outWords [] with
  | true =>
    refine consumesFrom_bind (consumesFrom_lookThen ?_) hf
    rw [hout, if_pos rfl]
    refine consumesFrom_advanceThen ?_ fun _ => steady_bind (steady_demand _ _) fun _ =>
      steady_bind steady_advance fun _ => steady_pure _
    cases hkind : w.cursor.current.kind <;> simp_all [Cursor.isOneOf, Token.isFinish]
  | false =>
    have hfalse : discardedOut.run w = .ok false w := by
      show (if w.cursor.isOneOf outWords [] then _ else pure false : Walker σ Bool).run w = _
      rw [hout]
      rfl
    intro b v hrun
    rw [run_bind_of_ok hfalse] at hrun
    exact h b v hrun

theorem steady_dottedStep (name : String) : Steady (σ := σ) d (dottedStep name) (dottedStep name) :=
  steady_lookThen fun _ => by
    split
    · exact steady_bind steady_advance fun _ => steady_pure _
    · exact steady_pure _

/-- The name after `as` is read from tokens alone. -/
theorem steady_aliasName (dotted : Bool) : Steady (σ := σ) d (aliasName dotted) (aliasName dotted) :=
  steady_bind (steady_demand _ _) fun _ => by
    cases dotted with
    | true => exact steady_map (steady_repeatStep steady_dottedStep "")
    | false => exact steady_lookThen fun _ => steady_bind steady_advance fun _ => steady_pure _

/-- A dotted name goes past each of its dots and words. -/
theorem roundsConsume_dottedStep : RoundsConsume (dottedStep : String → Walker σ (Bool × String)) := by
  refine fun name w => roundFrom_lookThen ?_
  split
  · rename_i hkind
    refine ConsumesFrom.round (consumesFrom_advanceThen ?_ fun _ => steady_pure _)
    cases hk : w.cursor.current.kind <;> simp_all [Token.isFinish]
  · exact roundFrom_stop _ w

end Walker

end TypeAhead
