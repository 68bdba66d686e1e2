/-
  TypeAhead.Proofs.Walk.Contract — WHAT A RULE PROMISES.

  A contract says of a rule started at one walk which walks it passes through,
  what holds when it succeeds and what holds when it fails.  Contracts compose
  like rules do: every way to put rules together has one lemma here, and the
  grammars are reasoned about through these lemmas alone.

      Ensures.bind          one rule after the other
      Ensures.nested        one level deeper
      Ensures.repeatWhile   a loop, by an invariant
-/
import TypeAhead.Walk

namespace TypeAhead.Walker

variable {σ α β : Type}

/-! ## §1. Contracts. -/

/-- Started at `w`, the rule passes only through walks with `I`; its result and the walk that it
leaves satisfy `Q`, or it fails with `E`. -/
structure Ensures (x : Walker σ α) (w : Walk σ) (I : Walk σ → Prop) (Q : α → Walk σ → Prop)
    (E : Failure → Walk σ → Prop) : Prop where
  along : ∀ v, x.passes w v → I v
  outcome : match x.run w with
    | .ok a v => Q a v
    | .error failure v => E failure v

variable {I : Walk σ → Prop} {Q Q' : α → Walk σ → Prop} {R : β → Walk σ → Prop}
  {E : Failure → Walk σ → Prop} {x : Walker σ α} {f : α → Walker σ β} {w : Walk σ}

/-- What is known of a rule that has succeeded. -/
theorem Ensures.ok (h : Ensures x w I Q E) {a : α} {v : Walk σ} (hrun : x.run w = .ok a v) :
    Q a v := by
  have := h.outcome
  rwa [hrun] at this

/-- What is known of a rule that has failed. -/
theorem Ensures.error (h : Ensures x w I Q E) {failure : Failure} {v : Walk σ}
    (hrun : x.run w = .error failure v) : E failure v := by
  have := h.outcome
  rwa [hrun] at this

/-- A contract may promise less. -/
theorem Ensures.imp {E' : Failure → Walk σ → Prop} (h : Ensures x w I Q E)
    (hQ : ∀ a v, Q a v → Q' a v) (hE : ∀ failure v, E failure v → E' failure v) :
    Ensures x w I Q' E' := by
  refine ⟨h.along, ?_⟩
  cases hrun : x.run w with
  | ok a v => exact hQ a v (h.ok hrun)
  | error failure v => exact hE failure v (h.error hrun)

/-! ## §2. Single moves. -/

/-- A move promises what holds of the two walks at its ends. -/
theorem Ensures.move {step : Walk σ → Walk.Outcome σ α} (hw : I w)
    (hv : I (step w).walk)
    (h : match step w with
      | .ok a v => Q a v
      | .error failure v => E failure v) :
    Ensures (Walker.move step) w I Q E := by
  refine ⟨?_, h⟩
  rintro v (rfl | rfl)
  · exact hw
  · exact hv

theorem Ensures.pure {a : α} (hw : I w) (h : Q a w) : Ensures (pure a) w I Q E :=
  .move hw hw h

/-- To look changes nothing. -/
theorem Ensures.look {f : Cursor → α} (hw : I w) (h : Q (f w.cursor) w) :
    Ensures (Walker.look f) w I Q E :=
  .move hw hw h

/-- A rule that fails where it stands. -/
theorem Ensures.fail {cause : Cause} (hw : I w) (h : E (.fault (w.cursor.fault cause)) w) :
    Ensures (Walker.fail cause) w I Q E :=
  .move hw hw h

/-- A rule that fails at an offset. -/
theorem Ensures.failAt {position : Nat} {cause : Cause} (hw : I w)
    (h : E (.fault ⟨cause, position⟩) w) : Ensures (Walker.failAt position cause) w I Q E :=
  .move hw hw h

/-- A rule that refuses null propagation. -/
theorem Ensures.refuse (hw : I w) (h : E (.propagation w.cursor.current.start) w) :
    Ensures Walker.refuse w I Q E :=
  .move hw hw h

/-- A computation succeeds or fails, and the walk is as it was. -/
theorem Ensures.ofExcept {result : Except Fault α} (hw : I w)
    (hok : ∀ a, result = .ok a → Q a w)
    (herror : ∀ fault, result = .error fault → E (.fault fault) w) :
    Ensures (Walker.ofExcept result) w I Q E := by
  cases result with
  | ok a => exact .pure hw (hok a rfl)
  | error fault => exact .move hw hw (herror fault rfl)

/-- The cursor is changed. -/
theorem Ensures.edit {f : Cursor → Cursor} {Q : Unit → Walk σ → Prop} (hw : I w)
    (hv : I { w with cursor := f w.cursor }) (h : Q () { w with cursor := f w.cursor }) :
    Ensures (Walker.edit f) w I Q E :=
  .move hw hv h

/-- What is held is changed. -/
theorem Ensures.hold {f : Cursor → σ → σ} {Q : Unit → Walk σ → Prop} (hw : I w)
    (hv : I { w with held := f w.cursor w.held })
    (h : Q () { w with held := f w.cursor w.held }) :
    Ensures (Walker.hold f) w I Q E :=
  .move hw hv h

/-- Going on promises something for the case that there is a next token and something for the
case that the text has a fault there. -/
theorem Ensures.advance {Q : Unit → Walk σ → Prop} (hw : I w)
    (hok : ∀ c, w.cursor.next = .ok c →
      I { w with cursor := c } ∧ Q () { w with cursor := c })
    (herror : ∀ fault, w.cursor.next = .error fault → E (.fault fault) w) :
    Ensures Walker.advance w I Q E := by
  cases hnext : w.cursor.next with
  | ok c =>
    refine .move hw ?_ ?_ <;> simp only [hnext]
    · exact (hok c hnext).1
    · exact (hok c hnext).2
  | error fault =>
    refine .move hw ?_ ?_ <;> simp only [hnext]
    · exact hw
    · exact herror fault hnext

/-! ## §3. Rules in a row. -/

/-- What the first rule promises has to be enough for the second one. -/
theorem Ensures.bind (hx : Ensures x w I Q E) (hf : ∀ a v, Q a v → Ensures (f a) v I R E) :
    Ensures (x >>= f) w I R E := by
  have hout := hx.outcome
  show Ensures (Walker.bind x f) w I R E
  -- The moments of both parts are those of the first one, and then those of the second one if it is
  -- reached.
  cases hrun : x.run w with
  | ok a u =>
    rw [hrun] at hout
    have hfa := hf a u hout
    refine ⟨?_, ?_⟩
    · rintro v (hv | ⟨b, t, hb, hv⟩)
      · exact hx.along v hv
      · rw [hrun] at hb
        cases hb
        exact hfa.along v hv
    · simp only [Walker.bind, hrun]
      exact hfa.outcome
  | error failure u =>
    rw [hrun] at hout
    refine ⟨?_, ?_⟩
    · rintro v (hv | ⟨b, t, hb, hv⟩)
      · exact hx.along v hv
      · rw [hrun] at hb
        cases hb
    · simp only [Walker.bind, hrun]
      exact hout

/-- A result that is only renamed afterwards. -/
theorem Ensures.map {g : α → β} (hx : Ensures x w I Q E) (hw : ∀ a v, Q a v → I v)
    (hg : ∀ a v, Q a v → R (g a) v) : Ensures (g <$> x) w I R E :=
  hx.bind fun a v hQ => .pure (hw a v hQ) (hg a v hQ)

/-- What follows a look at the current token starts where the look did. -/
theorem Ensures.lookThen {g : Cursor → α} (hw : I w) (h : Ensures (f (g w.cursor)) w I R E) :
    Ensures (Walker.look g >>= f) w I R E := by
  refine Ensures.bind (Q := fun a v => a = g w.cursor ∧ v = w) (.look hw ⟨rfl, rfl⟩) ?_
  rintro _ _ ⟨rfl, rfl⟩
  exact h

theorem Ensures.pureThen {a : α} (hw : I w) (h : Ensures (f a) w I R E) :
    Ensures (Pure.pure a >>= f) w I R E := by
  refine Ensures.bind (Q := fun b v => b = a ∧ v = w) (.pure hw ⟨rfl, rfl⟩) ?_
  rintro _ _ ⟨rfl, rfl⟩
  exact h

/-- What follows something read from the text. -/
theorem Ensures.ofExceptThen {e : Except Fault α} (hw : I w)
    (herror : ∀ fault, e = .error fault → E (.fault fault) w)
    (hf : ∀ a, e = .ok a → Ensures (f a) w I R E) : Ensures (Walker.ofExcept e >>= f) w I R E := by
  refine Ensures.bind (Q := fun a v => e = .ok a ∧ v = w)
    (.ofExcept hw (fun _ h => ⟨h, rfl⟩) herror) ?_
  rintro a _ ⟨ha, rfl⟩
  exact hf a ha

/-- Where a rule stops, nothing follows. -/
theorem Ensures.stopThen {g : Cursor → Failure} (hw : I w) (h : E (g w.cursor) w) :
    Ensures (Walker.stop g >>= f) w I R E := by
  have hstop : Ensures (Walker.stop g : Walker σ α) w I (fun _ _ => False) E := .move hw hw h
  exact hstop.bind fun _ _ hv => hv.elim

/-- A contract may ask less of the walks on the way. -/
theorem Ensures.along_imp {I' : Walk σ → Prop} (h : Ensures x w I Q E) (hI : ∀ v, I v → I' v) :
    Ensures x w I' Q E :=
  ⟨fun v hv => hI v (h.along v hv), h.outcome⟩

/-- A rule that succeeds after another one comes after one that succeeded. -/
theorem eq_ok_of_bind {b : β} {v : Walk σ} (h : (x >>= f).run w = .ok b v) :
    ∃ a u, x.run w = .ok a u ∧ (f a).run u = .ok b v := by
  change (Walker.bind x f).run w = .ok b v at h
  unfold Walker.bind at h
  dsimp only at h
  cases hx : x.run w with
  | ok a u =>
    rw [hx] at h
    exact ⟨a, u, rfl, h⟩
  | error failure u =>
    rw [hx] at h
    cases h

/-- A rule that looks goes on from where it is. -/
theorem eq_ok_of_lookThen {g : Cursor → α} {b : β} {v : Walk σ} (h : (look g >>= f).run w = .ok b v) :
    (f (g w.cursor)).run w = .ok b v := h

/-- What is computed moves no walk. -/
theorem eq_ok_of_ofExcept {e : Except Fault α} {a : α} {v : Walk σ}
    (h : (ofExcept e : Walker σ α).run w = .ok a v) : e = .ok a ∧ v = w := by
  cases e with
  | error fault => cases h
  | ok b =>
    cases h
    exact ⟨rfl, rfl⟩

/-- Between two changes of the walk a rule succeeds as it does by itself. -/
theorem eq_ok_of_between {enter leave : Walk σ → Walk σ} {a : α} {v : Walk σ}
    (h : (between enter leave x).run w = .ok a v) : ∃ u, x.run (enter w) = .ok a u ∧ v = leave u := by
  simp only [between] at h
  split at h
  · rename_i u hx
    cases h
    exact ⟨u, hx, rfl⟩
  · cases h

/-- A nested rule succeeds as it does one level deeper. -/
theorem eq_ok_of_nested {a : α} {v : Walk σ} (h : (nested x).run w = .ok a v) :
    w.depth < Limits.nesting ∧ ∃ u, x.run w.deeper = .ok a u ∧ v = u.shallower := by
  simp only [nested] at h
  split at h
  · cases h
  · rename_i hdepth
    exact ⟨Nat.not_le.1 hdepth, eq_ok_of_between h⟩

/-- A walk goes on to the next token, if that can be read. -/
theorem eq_ok_of_advance {a : Unit} {v : Walk σ} (h : (advance : Walker σ Unit).run w = .ok a v) :
    ∃ c, w.cursor.next = .ok c ∧ v = { w with cursor := c } := by
  simp only [advance, move] at h
  split at h
  · rename_i c hnext
    cases h
    exact ⟨c, hnext, rfl⟩
  · cases h

/-- Going on leads to the next token. -/
theorem run_advance {c : Cursor} (hnext : w.cursor.next = .ok c) :
    (advance : Walker σ Unit).run w = .ok () { w with cursor := c } := by
  simp only [advance, move, hnext]

/-- What follows a rule that succeeds starts where that left the walk. -/
theorem run_bind_of_ok {a : α} {u : Walk σ} (h : x.run w = .ok a u) : (x >>= f).run w = (f a).run u := by
  show (Walker.bind x f).run w = _
  unfold Walker.bind
  dsimp only
  rw [h]

/-- Nothing follows a rule that fails. -/
theorem run_bind_of_error {failure : Failure} {u : Walk σ} (h : x.run w = .error failure u) :
    (x >>= f).run w = .error failure u := by
  show (Walker.bind x f).run w = _
  unfold Walker.bind
  dsimp only
  rw [h]

/-! ## §4. Choices. -/

/-- Each branch of a choice knows how the test came out. -/
theorem Ensures.ifLook {test : Cursor → Bool} {y z : Walker σ β} (hw : I w)
    (htrue : test w.cursor = true → Ensures y w I R E)
    (hfalse : test w.cursor = false → Ensures z w I R E) :
    Ensures (do if ← Walker.look test then y else z) w I R E := by
  refine Ensures.bind (Q := fun b v => b = test w.cursor ∧ v = w) (.look hw ⟨rfl, rfl⟩) ?_
  rintro _ v ⟨rfl, rfl⟩
  cases h : test v.cursor with
  | true => exact htrue h
  | false => exact hfalse h

/-- A rule that is left out does nothing. -/
theorem Ensures.onlyIf {test : Cursor → Bool} {y : Walker σ Unit} {R : Unit → Walk σ → Prop}
    (hw : I w) (htrue : test w.cursor = true → Ensures y w I R E)
    (hfalse : test w.cursor = false → R () w) : Ensures (Walker.onlyIf test y) w I R E :=
  .ifLook hw htrue fun h => .pure hw (hfalse h)

/-- A demand that is met does nothing, and one that is not fails where it stands. -/
theorem Ensures.demand {test : Cursor → Bool} {cause : Cause} {R : Unit → Walk σ → Prop}
    (hw : I w) (htrue : test w.cursor = true → R () w)
    (hfalse : test w.cursor = false → E (.fault (w.cursor.fault cause)) w) :
    Ensures (Walker.demand test cause) w I R E :=
  .ifLook hw (fun h => .pure hw (htrue h)) fun h => .fail hw (hfalse h)

/-- What follows a demand knows that it is met. -/
theorem Ensures.demandThen {test : Cursor → Bool} {cause : Cause} {g : Unit → Walker σ β} (hw : I w)
    (htrue : test w.cursor = true → Ensures (g ()) w I R E)
    (hfalse : test w.cursor = false → E (.fault (w.cursor.fault cause)) w) :
    Ensures (Walker.demand test cause >>= g) w I R E := by
  refine Ensures.bind (Q := fun _ v => test w.cursor = true ∧ v = w)
    (.demand hw (fun ht => ⟨ht, rfl⟩) hfalse) ?_
  rintro _ _ ⟨ht, rfl⟩
  exact htrue ht

/-! ## §5. Nesting. -/

/-- One level deeper a rule has the same contract, unless the limit is reached. -/
theorem Ensures.nested (hw : I w)
    (hdeep : Limits.nesting ≤ w.depth → E (.fault (w.cursor.fault .tooDeep)) w)
    (hx : w.depth < Limits.nesting →
      Ensures x w.deeper I (fun a v => I v.shallower ∧ Q a v.shallower)
        fun failure v => I v.shallower ∧ E failure v.shallower) :
    Ensures (Walker.nested x) w I Q E := by
  -- Too deep a walk stops where it is; otherwise the inner one runs a level deeper.
  by_cases h : Limits.nesting ≤ w.depth
  · refine ⟨?_, ?_⟩
    · intro v hv
      simp only [Walker.nested, if_pos h] at hv
      exact hv ▸ hw
    · simp only [Walker.nested, if_pos h]
      exact hdeep h
  · have hx := hx (Nat.lt_of_not_le h)
    have hout := hx.outcome
    cases hrun : x.run w.deeper <;> rw [hrun] at hout <;> refine ⟨?_, ?_⟩
    · simp only [Walker.nested, if_neg h, Walker.between]
      rintro v (rfl | hv | rfl)
      · exact hw
      · exact hx.along v hv
      · rw [hrun]; exact hout.1
    · simp only [Walker.nested, if_neg h, Walker.between, hrun]
      exact hout.2
    · simp only [Walker.nested, if_neg h, Walker.between]
      rintro v (rfl | hv | rfl)
      · exact hw
      · exact hx.along v hv
      · rw [hrun]; exact hout.1
    · simp only [Walker.nested, if_neg h, Walker.between, hrun]
      exact hout.2

/-- The walk that a nested rule leaves is one that it passes through. -/
theorem passes_nested (x : Walker σ α) (w : Walk σ) :
    (Walker.nested x).passes w ((Walker.nested x).run w).walk := by
  by_cases h : Limits.nesting ≤ w.depth
  · simp only [Walker.nested, if_pos h]
    rfl
  · simp only [Walker.nested, if_neg h, Walker.between]
    refine .inr (.inr ?_)
    cases x.run w.deeper <;> rfl

/-! ## §6. Loops. -/

/-- `J` holds of what the loop carries before each of its steps. -/
theorem Ensures.repeatUpTo {step : α → Walker σ (Bool × α)} {J : α → Walk σ → Prop}
    (hI : ∀ a v, J a v → I v)
    (hdeep : ∀ a v, J a v → E (.fault (v.cursor.fault .tooDeep)) v)
    (hstep : ∀ a v, J a v →
      Ensures (step a) v I (fun next u => if next.1 then J next.2 u else I u ∧ Q next.2 u) E)
    (budget : Nat) (a : α) (w : Walk σ) (h : J a w) :
    Ensures (Walker.repeatUpTo step budget a) w I Q E := by
  induction budget generalizing a w with
  | zero => exact .fail (hI a w h) (hdeep a w h)
  | succ budget ih =>
    refine (hstep a w h).bind ?_
    rintro ⟨again, b⟩ v hv
    cases again with
    | false => exact .pure hv.1 hv.2
    | true => exact ih b v hv

/-- A loop, with `J` as its invariant between the rounds. -/
theorem Ensures.repeatStep {step : α → Walker σ (Bool × α)} {J : α → Walk σ → Prop} {a : α}
    (hI : ∀ a v, J a v → I v)
    (hdeep : ∀ a v, J a v → E (.fault (v.cursor.fault .tooDeep)) v)
    (hstep : ∀ a v, J a v →
      Ensures (step a) v I (fun next u => if next.1 then J next.2 u else I u ∧ Q next.2 u) E)
    (h : J a w) : Ensures (Walker.repeatStep step a) w I Q E := by
  refine Ensures.bind (Q := fun _ v => v = w) (.look (hI a w h) rfl) ?_
  rintro c _ rfl
  exact .repeatUpTo hI hdeep hstep _ _ _ h

/-- The step of `repeatWhile`. -/
def whileStep (test : Cursor → Bool) (step : Walker σ Unit) : Unit → Walker σ (Bool × Unit) :=
  fun _ => do
    if ← look test then
      step
      pure (true, ())
    else pure (false, ())

/-- Goes on with a loop, from its start or with a budget that is left. -/
def goOn (test : Cursor → Bool) (step : Walker σ Unit) : Option Nat → Walker σ Unit
  | none => repeatWhile test step
  | some budget => repeatUpTo (whileStep test step) budget ()

/-- A loop that goes on as long as a test holds: its invariant `J` is kept by a step whenever the
test holds, and after the loop it holds together with the end of the test. -/
theorem Ensures.goOn {test : Cursor → Bool} {step : Walker σ Unit} {J : Walk σ → Prop}
    (hI : ∀ v, J v → I v)
    (hdeep : ∀ v, J v → E (.fault (v.cursor.fault .tooDeep)) v)
    (hstep : ∀ v, J v → test v.cursor = true → Ensures step v I (fun _ u => J u) E)
    (budget : Option Nat) (h : J w) :
    Ensures (Walker.goOn test step budget) w I (fun _ v => J v ∧ test v.cursor = false) E := by
  have hwhile : ∀ a v, J v → Ensures (whileStep test step a) v I
      (fun next u => if next.1 then J u else I u ∧ J u ∧ test u.cursor = false) E := by
    intro _ v hv
    refine .ifLook (hI v hv) (fun ht => ?_) fun hf => .pure (hI v hv) ⟨hI v hv, hv, hf⟩
    exact (hstep v hv ht).bind fun _ u hu => .pure (hI u hu) hu
  cases budget with
  | none => exact .repeatStep (J := fun _ v => J v) (fun _ => hI) (fun _ => hdeep) hwhile h
  | some budget =>
    exact .repeatUpTo (J := fun _ v => J v) (fun _ => hI) (fun _ => hdeep) hwhile _ _ _ h

/-- A loop by a test, which does not hold any more when it is over. -/
theorem Ensures.repeatWhile {test : Cursor → Bool} {step : Walker σ Unit} {J : Walk σ → Prop}
    (hI : ∀ v, J v → I v)
    (hdeep : ∀ v, J v → E (.fault (v.cursor.fault .tooDeep)) v)
    (hstep : ∀ v, J v → test v.cursor = true → Ensures step v I (fun _ u => J u) E)
    (h : J w) :
    Ensures (Walker.repeatWhile test step) w I (fun _ v => J v ∧ test v.cursor = false) E :=
  .goOn hI hdeep hstep none h

end TypeAhead.Walker
