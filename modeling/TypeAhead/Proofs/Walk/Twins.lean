/-
  TypeAhead.Proofs.Walk.Twins — TWO WALKS OVER THE SAME TOKENS.

  Where two texts have the same tokens, one after the other, a grammar walks them
  in the same way: what decides is the kind and the wording of tokens, never where
  they stand.  A `Twins` says how the places of the two texts correspond.  Twin
  walks are equally deep and hold the same, they succeed alike and they fail alike.

  How many tokens are ahead is part of what is known of the two walks.  No rule
  adds any, and a round of a loop takes at least one, so that no loop ends for
  want of budget.

      same_bind          one rule after the other
      same_nested        one level deeper
      same_repeatStep    a loop, every round of which takes a token
-/
import TypeAhead.Proofs.Fragment.Lockstep

namespace TypeAhead

open Walker Fragment

/-! ## §1. Places that correspond. -/

/-- Results with `R`, or faults of the same cause at places that correspond. -/
inductive Agree {α β : Type} (place : Nat → Nat → Prop) (R : α → β → Prop) :
    Except Fault α → Except Fault β → Prop where
  | ok {a : α} {b : β} (h : R a b) : Agree place R (.ok a) (.ok b)
  | error {f g : Fault} (hcause : g.cause = f.cause) (hplace : place f.position g.position) :
      Agree place R (.error f) (.error g)

/-- Failures of the same cause at places that correspond. -/
def SameFailure (place : Nat → Nat → Prop) : Failure → Failure → Prop
  | .fault f, .fault g => g.cause = f.cause ∧ place f.position g.position
  | .propagation a, .propagation b => place a b
  | _, _ => False

/-- Results with `R`, or failures of the same cause at places that correspond. -/
inductive Concur {α β : Type} (place : Nat → Nat → Prop) (R : α → β → Prop) :
    Except Failure α → Except Failure β → Prop where
  | ok {a : α} {b : β} (h : R a b) : Concur place R (.ok a) (.ok b)
  | error {failure failure' : Failure} (h : SameFailure place failure failure') :
      Concur place R (.error failure) (.error failure')

/-- How two texts with the same tokens correspond. -/
structure Twins where
  /-- The cursors stand on the same token, with at most so many tokens ahead. -/
  alike : Nat → Cursor → Cursor → Prop
  /-- Offsets that correspond. -/
  place : Nat → Nat → Prop
  kind_eq : ∀ {n c d}, alike n c d → d.current.kind = c.current.kind
  text_eq : ∀ {n c d}, alike n c d → d.current.text = c.current.text
  start_eq : ∀ {n c d}, alike n c d → place c.current.start d.current.start
  /-- A text has no more tokens than bytes, save for its end. -/
  le_size : ∀ {n c d}, alike n c d → n ≤ c.size + 1 ∧ n ≤ d.size + 1
  next : ∀ {n c d}, alike n c d → c.current.isFinish = false →
    Agree place (fun c' d' => ∃ m, m < n ∧ alike m c' d') c.next d.next
  replace : ∀ {n c d} {s t : Token}, alike n c d → s.kind = c.current.kind → t.kind = s.kind →
    t.text = s.text → place s.start t.start →
    alike n { c with current := s } { d with current := t }

namespace Twins

variable {p : Twins} {n : Nat} {c d : Cursor}

/-- The two texts are over together. -/
theorem isFinish_eq (h : p.alike n c d) : d.current.isFinish = c.current.isFinish := by
  rw [Token.isFinish, Token.isFinish, p.kind_eq h]

/-- Tests that read only the kind and the text cannot tell the cursors apart. -/
theorem test_eq {β : Type} {f : Cursor → β} (hf : ReadsToken f) (h : p.alike n c d) : f d = f c :=
  hf c d (p.kind_eq h) (p.text_eq h)

/-- The next tokens are the same as well; where the texts are over, they stay so. -/
theorem agree_next (h : p.alike n c d) :
    Agree p.place (fun c' d' => ∃ m, p.alike m c' d' ∧ m ≤ n ∧ (c.current.isFinish = false → m < n))
      c.next d.next := by
  cases hc : c.current.isFinish with
  | true =>
    rw [Cursor.next, Cursor.next, if_pos hc, if_pos ((isFinish_eq h).trans hc)]
    exact .ok ⟨n, h, Nat.le_refl n, by simp⟩
  | false =>
    have hnext := p.next h hc
    generalize c.next = e at hnext
    generalize d.next = e' at hnext
    cases hnext with
    | ok h =>
      obtain ⟨m, hm, h⟩ := h
      exact .ok ⟨m, h, Nat.le_of_lt hm, fun _ => hm⟩
    | error hcause hplace => exact .error hcause hplace

/-! ## §2. Outcomes that correspond. -/

/-- The two walks are at the same place, equally deep, and hold what corresponds. -/
structure Paired {σ : Type} (p : Twins) (S : σ → σ → Prop) (depth n : Nat) (w v : Walk σ) : Prop where
  alike : p.alike n w.cursor v.cursor
  depth_eq : w.depth = depth ∧ v.depth = depth
  held : S w.held v.held

/-- Both walks succeed, with results of which `Q` holds together with the number of tokens ahead,
or both fail alike. -/
inductive Same {σ α : Type} (p : Twins) (S : σ → σ → Prop) (depth : Nat) (Q : α → α → Nat → Prop) :
    Walk.Outcome σ α → Walk.Outcome σ α → Prop where
  | ok {a b : α} {n : Nat} {w v : Walk σ} (h : p.Paired S depth n w v) (hQ : Q a b n) :
      Same p S depth Q (.ok a w) (.ok b v)
  | error {failure failure' : Failure} {n : Nat} {w v : Walk σ} (h : p.Paired S depth n w v)
      (hf : TypeAhead.SameFailure p.place failure failure') :
      Same p S depth Q (.error failure w) (.error failure' v)

/-- The same result, with no more than `n` tokens ahead. -/
abbrev Within {α : Type} (n : Nat) : α → α → Nat → Prop := fun a b m => a = b ∧ m ≤ n

/-- The same result, with fewer than `n` tokens ahead. -/
abbrev Past {α : Type} (n : Nat) : α → α → Nat → Prop := fun a b m => a = b ∧ m < n

/-- The same result past the token at `c`, unless the text is over there. -/
abbrev Read {α : Type} (c : Cursor) (n : Nat) : α → α → Nat → Prop :=
  fun a b m => a = b ∧ m ≤ n ∧ (c.current.isFinish = false → m < n)

section

variable {σ α β : Type} {S : σ → σ → Prop} {depth : Nat} {w v : Walk σ}
  {Q Q' : α → α → Nat → Prop} {R : β → β → Nat → Prop} {o q : Walk.Outcome σ α}

/-- Less may be said of results. -/
theorem Same.imp (h : p.Same S depth Q o q) (hQ : ∀ a b m, Q a b m → Q' a b m) :
    p.Same S depth Q' o q := by
  cases h with
  | ok h hab => exact .ok h (hQ _ _ _ hab)
  | error h hf => exact .error h hf

/-- More tokens may be ahead than are known to be. -/
theorem Same.past {n : Nat} (h : p.Same S depth (Past n) o q) : p.Same S depth (Within n) o q :=
  h.imp fun _ _ _ hm => ⟨hm.1, Nat.le_of_lt hm.2⟩

/-- What goes past a token does so unless the text is over. -/
theorem Same.read {n : Nat} (h : p.Same S depth (Past n) o q) : p.Same S depth (Read c n) o q :=
  h.imp fun _ _ _ hm => ⟨hm.1, Nat.le_of_lt hm.2, fun _ => hm.2⟩

/-- Counting on from fewer tokens ahead. -/
theorem Same.within {n m : Nat} (h : p.Same S depth (Within m) o q) (hmn : m ≤ n) :
    p.Same S depth (Within n) o q :=
  h.imp fun _ _ _ hm => ⟨hm.1, Nat.le_trans hm.2 hmn⟩

/-- **One rule after the other.** -/
theorem same_bind {x y : Walker σ α} {f g : α → Walker σ β} (hx : p.Same S depth Q (x.run w) (y.run v))
    (hf : ∀ a b m w' v', x.run w = .ok a w' → Q a b m → p.Paired S depth m w' v' →
      p.Same S depth R ((f a).run w') ((g b).run v')) :
    p.Same S depth R ((x >>= f).run w) ((y >>= g).run v) := by
  rw [run_bind, run_bind]
  generalize hxw : x.run w = o at hx
  generalize y.run v = q at hx
  cases hx with
  | ok h hQ => exact hf _ _ _ _ _ hxw hQ h
  | error h hfail => exact .error h hfail

/-- The same, where the results are the same. -/
theorem same_then {x y : Walker σ α} {f g : α → Walker σ β} {n : Nat}
    (hx : p.Same S depth (Within n) (x.run w) (y.run v))
    (hf : ∀ a m w' v', m ≤ n → p.Paired S depth m w' v' →
      p.Same S depth R ((f a).run w') ((g a).run v')) :
    p.Same S depth R ((x >>= f).run w) ((y >>= g).run v) :=
  same_bind hx fun a _ m w' v' _ hm h => hm.1 ▸ hf a m w' v' hm.2 h

/-- What follows something that takes a token may take none. -/
theorem same_pastThen {x y : Walker σ α} {f g : α → Walker σ β} {n : Nat}
    (hx : p.Same S depth (Past n) (x.run w) (y.run v))
    (hf : ∀ a m w' v', m < n → p.Paired S depth m w' v' →
      p.Same S depth (Within m) ((f a).run w') ((g a).run v')) :
    p.Same S depth (Past n) ((x >>= f).run w) ((y >>= g).run v) := by
  refine same_bind hx ?_
  rintro a _ m w' v' - ⟨rfl, hm⟩ h
  exact (hf a m w' v' hm h).imp fun _ _ k hk => ⟨hk.1, Nat.lt_of_le_of_lt hk.2 hm⟩

/-- If the first rule goes past the token where it starts, then so do both together. -/
theorem same_readThen {x y : Walker σ α} {f g : α → Walker σ β} {n : Nat}
    (hx : p.Same S depth (Read c n) (x.run w) (y.run v))
    (hf : ∀ a m w' v', m ≤ n → p.Paired S depth m w' v' →
      p.Same S depth (Within m) ((f a).run w') ((g a).run v')) :
    p.Same S depth (Read c n) ((x >>= f).run w) ((y >>= g).run v) := by
  refine same_bind hx ?_
  rintro a _ m w' v' - ⟨rfl, hm, hread⟩ h
  refine (hf a m w' v' hm h).imp fun _ _ k hk => ⟨hk.1, Nat.le_trans hk.2 hm, fun hc => ?_⟩
  exact Nat.lt_of_le_of_lt hk.2 (hread hc)

/-! ## §3. Single moves. -/

/-- Both walks fail where they stand. -/
theorem same_fail {cause cause' : Cause} {n : Nat} (h : p.Paired S depth n w v)
    (hcause : cause' = cause) :
    p.Same S depth Q ((fail cause : Walker σ α).run w) ((fail cause' : Walker σ α).run v) :=
  .error h ⟨hcause, p.start_eq h.alike⟩

/-- Both walks fail at places that correspond. -/
theorem same_failAt {cause : Cause} {position position' n : Nat} (h : p.Paired S depth n w v)
    (hplace : p.place position position') :
    p.Same S depth Q ((failAt position cause : Walker σ α).run w)
      ((failAt position' cause : Walker σ α).run v) :=
  .error h ⟨rfl, hplace⟩

/-- Both walks refuse null propagation where they stand. -/
theorem same_refuse {n : Nat} (h : p.Paired S depth n w v) :
    p.Same S depth Q ((refuse : Walker σ α).run w) ((refuse : Walker σ α).run v) :=
  .error h (p.start_eq h.alike)

/-- Computations that agree on results and on faults. -/
theorem same_ofExcept {e e' : Except Fault α} {P : α → α → Prop} {n : Nat}
    (h : p.Paired S depth n w v) (he : Agree p.place P e e') (hQ : ∀ a b, P a b → Q a b n) :
    p.Same S depth Q ((ofExcept e : Walker σ α).run w) ((ofExcept e' : Walker σ α).run v) := by
  cases he with
  | ok hP => exact .ok h (hQ _ _ hP)
  | error hcause hplace => exact .error h ⟨hcause, hplace⟩

/-- What follows something read from the texts. -/
theorem same_ofExceptThen {e e' : Except Fault β} {P : β → β → Prop} {f g : β → Walker σ α} {n : Nat}
    (h : p.Paired S depth n w v) (he : Agree p.place P e e')
    (hf : ∀ a b, P a b → p.Same S depth Q ((f a).run w) ((g b).run v)) :
    p.Same S depth Q ((ofExcept e >>= f).run w) ((ofExcept e' >>= g).run v) := by
  cases he with
  | ok hP => exact hf _ _ hP
  | error hcause hplace => exact .error h ⟨hcause, hplace⟩

/-- Both cursors are changed alike. -/
theorem same_edit {f g : Cursor → Cursor} {Q : Unit → Unit → Nat → Prop} {n m : Nat}
    (h : p.Paired S depth n w v) (hm : p.alike m (f w.cursor) (g v.cursor)) (hQ : Q () () m) :
    p.Same S depth Q ((edit f : Walker σ Unit).run w) ((edit g : Walker σ Unit).run v) :=
  .ok ⟨hm, h.depth_eq, h.held⟩ hQ

/-- What follows a change of the places. -/
theorem same_editThen {f g : Cursor → Cursor} {x y : Unit → Walker σ α} {n m : Nat}
    (h : p.Paired S depth n w v) (hm : p.alike m (f w.cursor) (g v.cursor))
    (hx : ∀ w' v' : Walk σ, w'.cursor = f w.cursor → p.Paired S depth m w' v' →
      p.Same S depth Q ((x ()).run w') ((y ()).run v')) :
    p.Same S depth Q ((edit f >>= x).run w) ((edit g >>= y).run v) :=
  hx { w with cursor := f w.cursor } { v with cursor := g v.cursor } rfl ⟨hm, h.depth_eq, h.held⟩

/-- What both walks hold is changed alike. -/
theorem same_hold {f g : Cursor → σ → σ} {Q : Unit → Unit → Nat → Prop} {n : Nat}
    (h : p.Paired S depth n w v) (hS : S (f w.cursor w.held) (g v.cursor v.held)) (hQ : Q () () n) :
    p.Same S depth Q ((hold f).run w) ((hold g).run v) :=
  .ok ⟨h.alike, h.depth_eq, hS⟩ hQ

/-- Going on takes a token, unless the texts are over. -/
theorem same_advance {n : Nat} (h : p.Paired S depth n w v) :
    p.Same S depth (Read w.cursor n) ((advance : Walker σ Unit).run w)
      ((advance : Walker σ Unit).run v) := by
  have hnext := agree_next h.alike
  simp only [advance, move]
  generalize w.cursor.next = e at hnext
  generalize v.cursor.next = e' at hnext
  cases hnext with
  | ok hcd =>
    obtain ⟨m, hcd, hm⟩ := hcd
    exact .ok ⟨hcd, h.depth_eq, h.held⟩ ⟨rfl, hm⟩
  | error hcause hplace => exact .error h ⟨hcause, hplace⟩

/-- Before the end of the texts, going on leaves fewer tokens ahead. -/
theorem same_advance_past {n : Nat} (h : p.Paired S depth n w v)
    (hw : w.cursor.current.isFinish = false) :
    p.Same S depth (Past n) ((advance : Walker σ Unit).run w) ((advance : Walker σ Unit).run v) :=
  (same_advance h).imp fun _ _ _ hm => ⟨hm.1, hm.2.2 hw⟩

/-- Going on never leaves more tokens ahead. -/
theorem same_advance_within {n : Nat} (h : p.Paired S depth n w v) :
    p.Same S depth (Within n) ((advance : Walker σ Unit).run w) ((advance : Walker σ Unit).run v) :=
  (same_advance h).imp fun _ _ _ hm => ⟨hm.1, hm.2.1⟩

/-! ## §4. Choices. -/

/-- What follows a look at the two places. -/
theorem same_look {f : Cursor → β} {g g' : β → Walker σ α}
    (h : p.Same S depth Q ((g (f w.cursor)).run w) ((g' (f v.cursor)).run v)) :
    p.Same S depth Q ((look f >>= g).run w) ((look f >>= g').run v) :=
  h

/-- Both walks take the same branch. -/
theorem same_ifLook {test : Cursor → Bool} {x y x' y' : Walker σ α} {n : Nat}
    (h : p.Paired S depth n w v) (htest : ReadsToken test)
    (htrue : test w.cursor = true → p.Same S depth Q (x.run w) (x'.run v))
    (hfalse : test w.cursor = false → p.Same S depth Q (y.run w) (y'.run v)) :
    p.Same S depth Q ((do if ← look test then x else y : Walker σ α).run w)
      ((do if ← look test then x' else y' : Walker σ α).run v) := by
  show p.Same S depth Q ((if test w.cursor then x else y).run w)
    ((if test v.cursor then x' else y').run v)
  rw [test_eq htest h.alike]
  cases ht : test w.cursor with
  | true => exact htrue ht
  | false => exact hfalse ht

/-- Both walks do the rule or leave it out. -/
theorem same_onlyIf {test : Cursor → Bool} {x y : Walker σ Unit} {n : Nat}
    (h : p.Paired S depth n w v) (htest : ReadsToken test)
    (hx : test w.cursor = true → p.Same S depth (Within n) (x.run w) (y.run v)) :
    p.Same S depth (Within n) ((onlyIf test x).run w) ((onlyIf test y).run v) :=
  same_ifLook h htest hx fun _ => .ok h ⟨rfl, Nat.le_refl n⟩

/-- Both walks meet the demand or fail at it. -/
theorem same_demand {test : Cursor → Bool} {cause : Cause} {n : Nat} (h : p.Paired S depth n w v)
    (htest : ReadsToken test) :
    p.Same S depth (fun _ _ m => m = n ∧ test w.cursor = true)
      ((demand test cause : Walker σ Unit).run w) ((demand test cause : Walker σ Unit).run v) :=
  same_ifLook h htest (fun ht => .ok h ⟨rfl, ht⟩) fun _ => same_fail h rfl

/-- After a demand the walks are where they were, at a token that passes the test. -/
theorem same_demandThen {test : Cursor → Bool} {cause : Cause} {f g : Unit → Walker σ α} {n : Nat}
    (h : p.Paired S depth n w v) (htest : ReadsToken test)
    (hf : test w.cursor = true → p.Same S depth Q ((f ()).run w) ((g ()).run v)) :
    p.Same S depth Q ((demand test cause >>= f).run w) ((demand test cause >>= g).run v) := by
  show p.Same S depth Q (((demand test cause).run w).andThen f) (((demand test cause).run v).andThen g)
  rw [run_demand, run_demand, test_eq htest h.alike]
  cases ht : test w.cursor with
  | true => exact hf ht
  | false => exact same_fail h rfl

/-- Both walks go past a token of the kind or fail at it. -/
theorem same_expect {kind : TokenKind} {cause : Cause} {n : Nat} (h : p.Paired S depth n w v)
    (hkind : kind ≠ .finish) :
    p.Same S depth (Past n) ((expect kind cause : Walker σ Unit).run w)
      ((expect kind cause : Walker σ Unit).run v) := by
  refine same_demandThen h (readsToken_isKind kind) fun hk => same_advance_past h ?_
  have hk : w.cursor.current.kind = kind := by simpa [Cursor.isKind] using hk
  simpa [Token.isFinish, hk] using hkind

/-! ## §5. Nesting. -/

/-- **One level deeper**, unless both walks are at the limit. -/
theorem same_nested {x y : Walker σ α} {n : Nat} (h : p.Paired S depth n w v)
    (hx : depth < Limits.nesting → p.Paired S (depth + 1) n w.deeper v.deeper →
      p.Same S (depth + 1) Q (x.run w.deeper) (y.run v.deeper)) :
    p.Same S depth Q ((nested x).run w) ((nested y).run v) := by
  obtain ⟨hw, hv⟩ := h.depth_eq
  -- Both walks have the same depth, so either both are too deep or neither.
  by_cases hdepth : Limits.nesting ≤ depth
  · simp only [nested, hw, hv, if_pos hdepth]
    exact same_fail h rfl
  · simp only [nested, hw, hv, if_neg hdepth, between]
    have hdeeper : p.Paired S (depth + 1) n w.deeper v.deeper :=
      ⟨h.alike, ⟨congrArg (· + 1) hw, congrArg (· + 1) hv⟩, h.held⟩
    have hx := hx (Nat.lt_of_not_le hdepth) hdeeper
    generalize x.run w.deeper = o at hx
    generalize y.run v.deeper = q at hx
    have hshallower : ∀ {m} {w v : Walk σ}, p.Paired S (depth + 1) m w v →
        p.Paired S depth m w.shallower v.shallower := fun h =>
      ⟨h.alike, ⟨congrArg (· - 1) h.depth_eq.1, congrArg (· - 1) h.depth_eq.2⟩, h.held⟩
    cases hx with
    | ok h hQ => exact .ok (hshallower h) hQ
    | error h hf => exact .error (hshallower h) hf

/-! ## §6. Loops. -/

/-- A loop with budgets that are not used up: every round that asks for another one takes a token.
`J` is an invariant of the first walk. -/
theorem same_repeatUpTo {step step' : α → Walker σ (Bool × α)} {P : α → α → Nat → Prop}
    {J : Walk σ → Prop}
    (hstep : ∀ {a b m w v}, P a b m → J w → p.Paired S depth m w v →
      p.Same S depth (fun next next' k => next'.1 = next.1 ∧
        (next.1 = true → k < m ∧ P next.2 next'.2 k) ∧ (next.1 = false → Q next.2 next'.2 k))
        ((step a).run w) ((step' b).run v))
    (hJ : ∀ {a w b w'}, J w → (step a).run w = .ok (true, b) w' → J w')
    {k k' n : Nat} (hk : n < k) (hk' : n < k') {a b : α} (hab : P a b n) (hw : J w)
    (h : p.Paired S depth n w v) :
    p.Same S depth Q ((repeatUpTo step k a).run w) ((repeatUpTo step' k' b).run v) := by
  induction k generalizing k' n a b w v with
  | zero => exact absurd hk (Nat.not_lt_zero n)
  | succ k ih =>
    obtain _ | k' := k'
    · exact absurd hk' (Nat.not_lt_zero n)
    refine same_bind (hstep hab hw h) ?_
    rintro ⟨again, a'⟩ ⟨again', b'⟩ m w' v' hrun ⟨hagain, hgoes, hends⟩ h'
    cases hagain
    cases again with
    | true =>
      obtain ⟨hm, hab'⟩ := hgoes rfl
      exact ih (by omega) (by omega) hab' (hJ hw hrun) h'
    | false => exact .ok h' (hends rfl)

/-- Loops, by induction on the tokens ahead.  `P` holds between the rounds and `J` of the first walk. -/
theorem same_repeatStep {step step' : α → Walker σ (Bool × α)} {P : α → α → Nat → Prop}
    {J : Walk σ → Prop}
    (hstep : ∀ {a b m w v}, P a b m → J w → p.Paired S depth m w v →
      p.Same S depth (fun next next' k => next'.1 = next.1 ∧
        (next.1 = true → k < m ∧ P next.2 next'.2 k) ∧ (next.1 = false → Q next.2 next'.2 k))
        ((step a).run w) ((step' b).run v))
    (hJ : ∀ {a w b w'}, J w → (step a).run w = .ok (true, b) w' → J w')
    {n : Nat} {a b : α} (hab : P a b n) (hw : J w) (h : p.Paired S depth n w v) :
    p.Same S depth Q ((repeatStep step a).run w) ((repeatStep step' b).run v) := by
  obtain ⟨hc, hd⟩ := p.le_size h.alike
  have hk : n < w.cursor.size + 2 := by omega
  have hk' : n < v.cursor.size + 2 := by omega
  exact same_repeatUpTo hstep hJ hk hk' hab hw h

/-- A loop that goes on with the same result. -/
theorem same_loop {step step' : α → Walker σ (Bool × α)} {n : Nat}
    (hstep : ∀ {a m w v}, m ≤ n → p.Paired S depth m w v →
      p.Same S depth (fun next next' k => next = next' ∧ k ≤ m ∧ (next.1 = true → k < m))
        ((step a).run w) ((step' a).run v))
    (a : α) (h : p.Paired S depth n w v) :
    p.Same S depth (Within n) ((repeatStep step a).run w) ((repeatStep step' a).run v) := by
  refine same_repeatStep (P := fun a b m => a = b ∧ m ≤ n) (J := fun _ => True) ?_
    (fun _ _ => trivial) ⟨rfl, Nat.le_refl n⟩ trivial h
  rintro a _ m w v ⟨rfl, hm⟩ - h
  refine (hstep hm h).imp ?_
  rintro next _ k ⟨rfl, hk, hagain⟩
  exact ⟨rfl, fun ht => ⟨hagain ht, rfl, Nat.le_trans hk hm⟩, fun _ => ⟨rfl, Nat.le_trans hk hm⟩⟩

/-- Loops by a test, each round of which goes past a token. -/
theorem same_repeatWhile {test : Cursor → Bool} {step step' : Walker σ Unit} {n : Nat}
    (htest : ReadsToken test)
    (hstep : ∀ {m w v}, m ≤ n → p.Paired S depth m w v → test w.cursor = true →
      p.Same S depth (Past m) (step.run w) (step'.run v))
    (h : p.Paired S depth n w v) :
    p.Same S depth (Within n) ((repeatWhile test step).run w) ((repeatWhile test step').run v) := by
  refine same_loop (fun {_ m w v} hm h => ?_) () h
  refine same_ifLook h htest (fun ht => ?_) fun _ => .ok h ⟨rfl, Nat.le_refl m, nofun⟩
  refine same_bind (hstep hm h ht) fun _ _ k _ _ _ hk h' => ?_
  exact .ok h' ⟨rfl, Nat.le_of_lt hk.2, fun _ => hk.2⟩

/-! ## §7. Names. -/

/-- An `out` that is found takes tokens. -/
theorem same_discardedOut {n : Nat} (h : p.Paired S depth n w v) :
    p.Same S depth (fun a b m => a = b ∧ m ≤ n ∧ (a = true → m < n))
      ((discardedOut : Walker σ Bool).run w) ((discardedOut : Walker σ Bool).run v) := by
  have htext : ReadsToken fun c => c.current.text == "_" := by
    intro c d _ htext
    simp only [htext]
  refine same_ifLook h (readsToken_isOneOf _ _) (fun hout => ?_) fun _ => .ok h ⟨rfl, Nat.le_refl n, nofun⟩
  have hw : w.cursor.current.isFinish = false := by
    cases hk : w.cursor.current.kind <;> simp_all [Cursor.isOneOf, Token.isFinish]
  refine same_bind (same_advance_past h hw) fun _ _ m _ _ _ hm h => ?_
  refine same_demandThen h htext fun _ => ?_
  refine same_then (same_advance_within h) fun _ k _ _ hk h => ?_
  have hk : k < n := Nat.lt_of_le_of_lt hk hm.2
  exact .ok h ⟨rfl, Nat.le_of_lt hk, fun _ => hk⟩

/-- A name between dots is read to the same name. -/
theorem same_dottedName {n : Nat} (h : p.Paired S depth n w v) :
    p.Same S depth (Within n) ((dottedName : Walker σ String).run w)
      ((dottedName : Walker σ String).run v) := by
  refine same_loop (fun {name m w v} _ h => ?_) "" h
  refine same_look (f := Cursor.current) ?_
  rw [p.kind_eq h.alike, p.text_eq h.alike]
  split
  · rename_i hkind
    have hw : w.cursor.current.isFinish = false := by
      cases hc : w.cursor.current.kind <;> simp_all [Token.isFinish]
    refine same_bind (same_advance_past h hw) fun _ _ k _ _ _ hk h => ?_
    exact .ok h ⟨rfl, Nat.le_of_lt hk.2, fun _ => hk.2⟩
  · exact .ok h ⟨rfl, Nat.le_refl m, nofun⟩

/-- The name after `as` is read to the same name. -/
theorem same_aliasName (dotted : Bool) {n : Nat} (h : p.Paired S depth n w v) :
    p.Same S depth (Within n) ((aliasName dotted : Walker σ String).run w)
      ((aliasName dotted : Walker σ String).run v) := by
  refine same_demandThen h (readsToken_isKind _) fun _ => ?_
  cases dotted with
  | true =>
    refine same_then (same_dottedName h) fun name m _ _ hm h => ?_
    exact .ok h ⟨rfl, hm⟩
  | false =>
    refine same_look (f := Cursor.current) ?_
    rw [p.text_eq h.alike]
    refine same_then (same_advance_within h) fun _ m _ _ hm h => ?_
    exact .ok h ⟨rfl, hm⟩

end

end Twins

end TypeAhead
