/-
  TypeAhead.Proofs.Typing.Hinges — WHAT A RULE HINGES ON.

  A rule calls others, and which ones it calls where depends on the text.  Its
  outcome hinges on those calls that it makes and on no other: if the others came
  to something else, it would come to the same.

  To compare a rule in two settings, it is run three times: as it is, in the other
  setting, and with calls blocked at the places where the settings come apart.
  Either all three come to the same, or the rule runs into a blocked call, and so
  hinges on one.

      HingesOn          the outcome hinges on calls at certain places
      Kept              the three runs
      kept_bind …       how rules are put together
-/
import TypeAhead.Proofs.Typing.Course

namespace TypeAhead.Typing.Rule

open Walker

variable {α β : Type}

/-! ## §1. Calls that matter. -/

/-- The outcome of the rule at the walk hinges on what calls come to at places with `P`: it can be
another one if these come to something else, and all other calls to what they do. -/
def HingesOn (s : Setting) (call : Rule → Typer Operand) (r : Rule) (w : ScopedWalk)
    (P : Rule → ScopedWalk → Prop) : Prop :=
  ∃ call' : Rule → Typer Operand, (∀ q v, ¬ P q v → (call' q).run v = (call q).run v) ∧
    (body s call' r).run w ≠ (body s call r).run w

open Classical in
/-- The same calls, except that they fail at places with `P`. -/
noncomputable def blocked (P : Rule → ScopedWalk → Prop) (call : Rule → Typer Operand) (r : Rule) :
    Typer Operand where
  run w := if P r w then .error (.propagation 0) w else (call r).run w
  passes := (call r).passes

/-- A rule that fails when calls are blocked hinges on them. -/
theorem hingesOn_of_blocked {s : Setting} {call : Rule → Typer Operand} {r : Rule} {w u t : ScopedWalk}
    {P : Rule → ScopedWalk → Prop} {a : Operand} {failure : Failure}
    (h : (body s call r).run w = .ok a u) (hblocked : (body s (blocked P call) r).run w = .error failure t) :
    HingesOn s call r w P := by
  refine ⟨blocked P call, ?_, ?_⟩
  · intro q v hv
    exact if_neg hv
  · rw [h, hblocked]
    exact nofun

/-! ## §2. Three runs. -/

/-- If the first rule succeeds, the other two come to the same, or the second one fails, or there is an
excuse. -/
def Kept (excuse : Prop) (x z y : Typer α) (w : ScopedWalk) : Prop :=
  ∀ a u, x.run w = .ok a u → (z.run w = .ok a u ∧ y.run w = .ok a u) ∨
    (∃ failure t, z.run w = .error failure t) ∨ excuse

variable {excuse : Prop} {x z y : Typer α} {f h g : α → Typer β} {w : ScopedWalk}

theorem kept_self (x : Typer α) (w : ScopedWalk) : Kept excuse x x x w :=
  fun _ _ hx => .inl ⟨hx, hx⟩

/-- **One rule after the other.** -/
theorem kept_bind (hx : Kept excuse x z y w)
    (hf : ∀ a u, x.run w = .ok a u → Kept excuse (f a) (h a) (g a) u) :
    Kept excuse (x >>= f) (z >>= h) (y >>= g) w := by
  intro b t hrun
  obtain ⟨a, u, hxw, hfa⟩ := eq_ok_of_bind hrun
  rcases hx a u hxw with ⟨hz, hy⟩ | ⟨failure, v, hz⟩ | hexcuse
  · rw [run_bind_of_ok hz, run_bind_of_ok hy]
    exact hf a u hxw b t hfa
  · exact .inr (.inl ⟨failure, v, run_bind_of_error hz⟩)
  · exact .inr (.inr hexcuse)

/-- What follows something in which nothing is called. -/
theorem kept_then (x : Typer α) (hf : ∀ a u, x.run w = .ok a u → Kept excuse (f a) (h a) (g a) u) :
    Kept excuse (x >>= f) (x >>= h) (x >>= g) w :=
  kept_bind (kept_self x w) hf

/-- What follows a look at the current token. -/
theorem kept_look {i : Cursor → α} (hf : Kept excuse (f (i w.cursor)) (h (i w.cursor)) (g (i w.cursor)) w) :
    Kept excuse (look i >>= f) (look i >>= h) (look i >>= g) w :=
  hf

theorem kept_scopes {f h g : List Scope → Typer β} (hf : Kept excuse (f w.held) (h w.held) (g w.held) w) :
    Kept excuse (scopes >>= f) (scopes >>= h) (scopes >>= g) w :=
  hf

theorem kept_map {i : α → β} (hx : Kept excuse x z y w) : Kept excuse (i <$> x) (i <$> z) (i <$> y) w :=
  kept_bind hx fun _ _ _ => kept_self _ _

/-- What fails in the end need not be kept. -/
theorem kept_of_fails {f : α → Typer β} {z y : Typer β} (hf : ∀ a u b t, (f a).run u ≠ .ok b t) :
    Kept excuse (x >>= f) z y w := by
  intro b t hrun
  obtain ⟨a, u, -, hfa⟩ := eq_ok_of_bind hrun
  exact absurd hfa (hf a u b t)

/-- Between two changes of the walk. -/
theorem kept_between {enter leave : ScopedWalk → ScopedWalk} (hx : Kept excuse x z y (enter w)) :
    Kept excuse (between enter leave x) (between enter leave z) (between enter leave y) w := by
  intro a u hrun
  obtain ⟨v, hxw, rfl⟩ := eq_ok_of_between hrun
  simp only [between]
  rcases hx a v hxw with ⟨hz, hy⟩ | ⟨failure, t, hz⟩ | hexcuse
  · rw [hz, hy]
    exact .inl ⟨rfl, rfl⟩
  · rw [hz]
    exact .inr (.inl ⟨failure, leave t, rfl⟩)
  · exact .inr (.inr hexcuse)

theorem kept_nested (hx : Kept excuse x z y w.deeper) :
    Kept excuse (nested x) (nested z) (nested y) w := by
  intro a u hrun
  unfold nested at hrun ⊢
  dsimp only at hrun ⊢
  by_cases hdepth : Limits.nesting ≤ w.depth
  · rw [if_pos hdepth] at hrun
    cases hrun
  · rw [if_neg hdepth] at hrun ⊢
    rw [if_neg hdepth]
    exact kept_between hx a u hrun

/-- The rounds of a loop, with what is known before each of them. -/
theorem kept_repeatUpTo {step step' step'' : α → Typer (Bool × α)} {J : α → ScopedWalk → Prop}
    (hstep : ∀ a u, J a u → Kept excuse (step a) (step' a) (step'' a) u)
    (hJ : ∀ a b u v, J a u → (step a).run u = .ok (true, b) v → J b v) (budget : Nat) {a : α} (ha : J a w) :
    Kept excuse (repeatUpTo step budget a) (repeatUpTo step' budget a) (repeatUpTo step'' budget a) w := by
  induction budget generalizing a w with
  | zero => exact kept_self _ w
  | succ budget ih =>
    apply kept_bind (hstep a w ha)
    rintro ⟨again, b⟩ u hu
    cases again with
    | true => exact ih (hJ a b w u ha hu)
    | false => exact kept_self _ u

/-- A loop, with what is known before each of its rounds. -/
theorem kept_repeatStep {step step' step'' : α → Typer (Bool × α)} {J : α → ScopedWalk → Prop} {a : α}
    (hstep : ∀ a u, J a u → Kept excuse (step a) (step' a) (step'' a) u)
    (hJ : ∀ a b u v, J a u → (step a).run u = .ok (true, b) v → J b v) (ha : J a w) :
    Kept excuse (repeatStep step a) (repeatStep step' a) (repeatStep step'' a) w :=
  kept_repeatUpTo hstep hJ (w.cursor.size + 2) ha

/-- A loop of which nothing needs to be known. -/
theorem kept_loop {step step' step'' : α → Typer (Bool × α)} (a : α)
    (hstep : ∀ a u, Kept excuse (step a) (step' a) (step'' a) u) :
    Kept excuse (repeatStep step a) (repeatStep step' a) (repeatStep step'' a) w :=
  kept_repeatStep (J := fun _ _ => True) (fun a u _ => hstep a u) (fun _ _ _ _ _ _ => trivial) trivial

end TypeAhead.Typing.Rule
