/-
  TypeAhead.Proofs.Fragment.Lockstep — TWO WALKS IN STEP.

  Two texts that have the same tokens for a while are walked in the same way for
  as long as they do, though offsets, depths and budgets differ and the second
  walk may have more open below.  A `Pairing` says what the two texts share.  The
  first text may be over where the second one goes on; there, at the edge, the
  walks part, and what the second one does from the edge on is what is to be said.

  Only faults for being too deep are left aside, as the two walks need not be
  equally deep.

      Locked.andThen        one rule after the other
      Locked.leave          one level deeper
      locked_repeatUpTo     loops
-/
import Mathlib.Data.List.Forall2
import TypeAhead.Fragment.Locate
import TypeAhead.Proofs.Token.Reading
import TypeAhead.Proofs.Walk.Contract

namespace TypeAhead

/-! ## §1. Outcomes in a row. -/

namespace Walk.Outcome

variable {σ α β : Type}

/-- What comes of going on with `f` after a success. -/
def andThen (o : Walk.Outcome σ α) (f : α → Walker σ β) : Walk.Outcome σ β :=
  match o with
  | .ok a w => (f a).run w
  | .error failure w => .error failure w

/-- What comes of leaving a nested rule. -/
def leave (o : Walk.Outcome σ α) : Walk.Outcome σ α :=
  match o with
  | .ok a w => .ok a w.shallower
  | .error failure w => .error failure w.shallower

/-- What has been left with success had succeeded inside. -/
theorem eq_ok_of_leave {o : Walk.Outcome σ α} {a : α} {v : Walk σ} (h : o.leave = .ok a v) :
    ∃ u, o = .ok a u ∧ v = u.shallower := by
  cases o <;> cases h
  exact ⟨_, rfl, rfl⟩

/-- The walk has failed for being too deep. -/
def TooDeep (o : Walk.Outcome σ α) : Prop :=
  ∃ position w, o = .error (.fault ⟨.tooDeep, position⟩) w

/-- What is too deep stays so, whatever follows. -/
theorem TooDeep.andThen {o : Walk.Outcome σ α} (h : o.TooDeep) (f : α → Walker σ β) :
    (o.andThen f).TooDeep := by
  obtain ⟨position, w, rfl⟩ := h
  exact ⟨position, w, rfl⟩

/-- What is too deep stays so one level up. -/
theorem TooDeep.leave {o : Walk.Outcome σ α} (h : o.TooDeep) : o.leave.TooDeep := by
  obtain ⟨position, w, rfl⟩ := h
  exact ⟨position, w.shallower, rfl⟩

/-- Outcomes are put in a row from either side. -/
theorem andThen_assoc {γ : Type} (o : Walk.Outcome σ α) (f : α → Walker σ β) (g : β → Walker σ γ) :
    (o.andThen f).andThen g = o.andThen fun a => f a >>= g := by
  cases o <;> rfl

end Walk.Outcome

namespace Walker

variable {σ α β : Type}

/-- To run rules in a row is to go on from the outcome of the first one. -/
theorem run_bind (x : Walker σ α) (f : α → Walker σ β) (w : Walk σ) :
    (x >>= f).run w = (x.run w).andThen f := rfl

/-- A nested rule is stopped at the limit; otherwise it is run one level deeper. -/
theorem run_nested (x : Walker σ α) (w : Walk σ) :
    ((nested x).run w).TooDeep ∨
      (nested x).run w = (x.run w.deeper).leave ∧ w.deeper.depth ≤ Limits.nesting := by
  by_cases h : Limits.nesting ≤ w.depth
  · refine .inl ⟨w.cursor.current.start, w, ?_⟩
    simp only [nested, if_pos h]
    rfl
  · refine .inr ⟨?_, Nat.lt_of_not_le h⟩
    simp only [nested, if_neg h, between]
    cases x.run w.deeper <;> rfl

/-- A rule that is left out does nothing. -/
theorem run_onlyIf (test : Cursor → Bool) (x : Walker σ Unit) (w : Walk σ) :
    (onlyIf test x).run w = if test w.cursor then x.run w else .ok () w := by
  show (if test w.cursor then x else pure ()).run w = _
  split <;> rfl

/-- A demand does nothing or fails. -/
theorem run_demand (test : Cursor → Bool) (cause : Cause) (w : Walk σ) :
    (demand test cause).run w =
      if test w.cursor then .ok () w else .error (.fault (w.cursor.fault cause)) w := by
  show (if test w.cursor then pure () else fail cause : Walker σ Unit).run w = _
  split <;> rfl

/-- A loop without a budget has one more round than there can be tokens. -/
theorem run_repeatStep (step : α → Walker σ (Bool × α)) (a : α) (w : Walk σ) :
    (repeatStep step a).run w = (repeatUpTo step (w.cursor.size + 2) a).run w := rfl

/-- A loop by a test has one more round than there can be tokens. -/
theorem run_repeatWhile (test : Cursor → Bool) (step : Walker σ Unit) (w : Walk σ) :
    (repeatWhile test step).run w =
      (repeatUpTo (whileStep test step) (w.cursor.size + 2) ()).run w := rfl

end Walker

namespace Fragment

open Walker

/-! ## §2. Pairings. -/

/-- What two texts share.  `alike` holds of the places of the two walks while they are in step,
`cross` where the first text is over and the second one goes on. -/
structure Pairing where
  /-- The first text. -/
  text : List Char
  alike : Cursor → Cursor → Prop
  cross : Cursor → Cursor → Prop
  /-- Offsets that correspond. -/
  place : Nat → Nat → Prop
  /-- What is open in the second walk below all that both have opened. -/
  base : List Nat
  /-- The first text may be over first. -/
  ends : Prop
  stands : ∀ {c d}, alike c d → ∃ past, Stands text past c
  kind_eq : ∀ {c d}, alike c d → d.current.kind = c.current.kind
  text_eq : ∀ {c d}, alike c d → d.current.text = c.current.text
  start_eq : ∀ {c d}, alike c d → place c.current.start d.current.start
  next_ok : ∀ {c d c'}, alike c d → c.next = .ok c' →
    ∃ d', d.next = .ok d' ∧ (alike c' d' ∨ cross c' d')
  next_error : ∀ {c d fault}, alike c d → c.next = .error fault →
    ends ∨ ∃ fault', d.next = .error fault' ∧ fault'.cause = fault.cause
  replace : ∀ {c d} {s t : Token}, alike c d → s.kind = c.current.kind →
    s.start ≤ c.current.start → t.kind = s.kind → t.text = s.text → place s.start t.start →
    alike { c with current := s } { d with current := t }
  finish_of_cross : ∀ {c d}, cross c d → c.current.isFinish = true
  ends_of_cross : ∀ {c d}, cross c d → ends
  question_of_cross : ∀ {c d}, cross c d → d.current.kind ≠ .question
  finish_of_ends : ∀ {c d}, ends → alike c d → c.current.isFinish = false

/-- Two failures of the same cause; a refused operator stands in both texts. -/
def SameFailure (place : Nat → Nat → Prop) : Failure → Failure → Prop
  | .fault f, .fault g => g.cause = f.cause
  | .propagation p, .propagation q => place p q
  | _, _ => False

/-- What is looked up is in the kind and the wording of the current token. -/
def ReadsToken {β : Type} (f : Cursor → β) : Prop :=
  ∀ c d, d.current.kind = c.current.kind → d.current.text = c.current.text → f d = f c

/-- Whether the current token is of a kind is read from it. -/
theorem readsToken_isKind (kind : TokenKind) : ReadsToken fun c => c.isKind kind := by
  intro c d hkind _
  simp only [Cursor.isKind, hkind]

/-- Whether it is of one of several kinds is too. -/
theorem readsToken_isAny (kinds : List TokenKind) : ReadsToken fun c => c.isAny kinds := by
  intro c d hkind _
  simp only [Cursor.isAny, hkind]

/-- Whether the current token is a word is read from it. -/
theorem readsToken_isWord (word : String) : ReadsToken fun c => c.isWord word := by
  intro c d hkind htext
  simp only [Cursor.isWord, hkind, htext]

/-- Whether it is one of several words or kinds is read from it. -/
theorem readsToken_isOneOf (words : List String) (kinds : List TokenKind) :
    ReadsToken fun c => c.isOneOf words kinds := by
  intro c d hkind htext
  simp only [Cursor.isOneOf, hkind, htext]

namespace Pairing

variable (p : Pairing) {α β : Type}

/-- The second stack is the first one, on top of what was open below it. -/
def Stacked (starts starts' : List Nat) : Prop :=
  ∃ top, starts' = top ++ p.base ∧ List.Forall₂ p.place starts top

/-- The walks are in step. -/
structure Paired (w v : Walk (List Nat)) : Prop where
  alike : p.alike w.cursor v.cursor
  stacked : p.Stacked w.held v.held

/-- The walks have come to the edge. -/
structure Parted (w u : Walk (List Nat)) : Prop where
  cross : p.cross w.cursor u.cursor
  stacked : p.Stacked w.held u.held

/-- How the outcomes of two walks correspond.  If the first one succeeds at the edge, `L` holds of
its result and its walk and of the outcome of the other one. -/
inductive Locked (L : α → Walk (List Nat) → Walk.Outcome (List Nat) α → Prop) :
    Walk.Outcome (List Nat) α → Walk.Outcome (List Nat) α → Prop where
  | ok {a : α} {w v : Walk (List Nat)} (h : p.Paired w v) : Locked L (.ok a w) (.ok a v)
  | error {failure failure' : Failure} {w v : Walk (List Nat)} (h : p.Stacked w.held v.held)
      (hf : SameFailure p.place failure failure') : Locked L (.error failure w) (.error failure' v)
  | deepFirst {o q : Walk.Outcome (List Nat) α} (h : o.TooDeep) : Locked L o q
  | deepSecond {o q : Walk.Outcome (List Nat) α} (h : q.TooDeep) : Locked L o q
  | failed {failure : Failure} {w : Walk (List Nat)} {o : Walk.Outcome (List Nat) α} (h : p.ends) :
      Locked L (.error failure w) o
  | parted {a : α} {w : Walk (List Nat)} {o : Walk.Outcome (List Nat) α} (h : p.ends)
      (hL : L a w o) : Locked L (.ok a w) o

/-- At the edge the second walk goes on with an outcome of which `K` holds. -/
def At (K : α → Walk (List Nat) → Walk.Outcome (List Nat) α → Prop) (a : α)
    (w : Walk (List Nat)) (o : Walk.Outcome (List Nat) α) : Prop :=
  ∃ u, p.Parted w u ∧ K a u o

variable {p}

/-- Where walks have parted, the first text is over. -/
theorem Parted.finish {w u : Walk (List Nat)} (h : p.Parted w u) :
    w.cursor.current.isFinish = true :=
  p.finish_of_cross h.cross

/-! ## §3. Rules in step. -/

variable {L L' : α → Walk (List Nat) → Walk.Outcome (List Nat) α → Prop}
  {M : β → Walk (List Nat) → Walk.Outcome (List Nat) β → Prop}
  {o q : Walk.Outcome (List Nat) α} {w v : Walk (List Nat)}

/-- What is known at the edge may be put in another way, also given how the first rule succeeded. -/
theorem Locked.imp_ok (h : p.Locked L o q)
    (hL : ∀ a w, o = .ok a w → L a w q → L' a w q) : p.Locked L' o q := by
  cases h with
  | ok h => exact .ok h
  | error h hf => exact .error h hf
  | deepFirst h => exact .deepFirst h
  | deepSecond h => exact .deepSecond h
  | failed h => exact .failed h
  | parted h hL' => exact .parted h (hL _ _ rfl hL')

/-- Less may be known at the edge. -/
theorem Locked.imp (h : p.Locked L o q) (hL : ∀ a w o, L a w o → L' a w o) :
    p.Locked L' o q :=
  h.imp_ok fun a w _ => hL a w q

/-- **One rule after the other.**  Where the walks are in step after the first rule, the second one
has to keep them so.  Where they have parted in the first rule, and the first walk still succeeds,
what is known of the second walk has to be enough for what is to be known afterwards. -/
theorem Locked.andThen {f g : α → Locator β} (h : p.Locked L o q)
    (hok : ∀ a w v, o = .ok a w → p.Paired w v → p.Locked M ((f a).run w) ((g a).run v))
    (hparted : ∀ a w, o = .ok a w → p.ends → L a w q →
      ∀ b w', (f a).run w = .ok b w' → M b w' (q.andThen g)) :
    p.Locked M (o.andThen f) (q.andThen g) := by
  cases h with
  | ok h => exact hok _ _ _ rfl h
  | error h hf => exact .error h hf
  | deepFirst h => exact .deepFirst (h.andThen f)
  | deepSecond h => exact .deepSecond (h.andThen g)
  | failed h => exact .failed h
  | @parted a w o h hL =>
    show p.Locked M ((f a).run w) _
    cases hrun : (f a).run w with
    | ok b w' => exact .parted h (hparted a w rfl h hL b w' hrun)
    | error failure w' => exact .failed h

/-- What the first part of a rule reads is not over at the edge. -/
theorem Locked.andThen_inside {f g : α → Locator β} (h : p.Locked (fun _ _ _ => False) o q)
    (hok : ∀ a w v, o = .ok a w → p.Paired w v → p.Locked M ((f a).run w) ((g a).run v)) :
    p.Locked M (o.andThen f) (q.andThen g) :=
  h.andThen hok fun _ _ _ _ hfalse => hfalse.elim

/-- One level deeper. -/
theorem Locked.leave (h : p.Locked L o q)
    (hparted : ∀ a w, L a w q → L' a w.shallower q.leave) : p.Locked L' o.leave q.leave := by
  cases h with
  | ok h => exact .ok ⟨h.alike, h.stacked⟩
  | error h hf => exact .error h hf
  | deepFirst h => exact .deepFirst h.leave
  | deepSecond h => exact .deepSecond h.leave
  | failed h => exact .failed h
  | parted h hL => exact .parted h (hparted _ _ hL)

/-- One level deeper.  Where only one of the walks is too deep, nothing has to be shown. -/
theorem locked_nested {x y : Locator α} (h : p.Locked L (x.run w.deeper) (y.run v.deeper))
    (hparted : ∀ a w, L a w (y.run v.deeper) → L' a w.shallower (y.run v.deeper).leave) :
    p.Locked L' ((nested x).run w) ((nested y).run v) := by
  rcases run_nested x w with hx | ⟨hx, -⟩
  · exact .deepFirst hx
  rcases run_nested y v with hy | ⟨hy, -⟩
  · exact .deepSecond hy
  rw [hx, hy]
  exact h.leave hparted

/-- Walks in step stand on tokens that a test cannot tell apart. -/
theorem Paired.test {f : Cursor → β} (h : p.Paired w v) (hf : ReadsToken f) :
    f v.cursor = f w.cursor :=
  hf _ _ (p.kind_eq h.alike) (p.text_eq h.alike)

/-- A choice by the current token. -/
theorem locked_ifLook {test : Cursor → Bool} {x y x' y' : Locator α} (h : p.Paired w v)
    (htest : ReadsToken test)
    (htrue : test w.cursor = true → p.Locked L (x.run w) (x'.run v))
    (hfalse : test w.cursor = false → p.Locked L (y.run w) (y'.run v)) :
    p.Locked L ((do if ← look test then x else y : Locator α).run w)
      ((do if ← look test then x' else y' : Locator α).run v) := by
  show p.Locked L ((if test w.cursor then x else y).run w)
    ((if test v.cursor then x' else y').run v)
  rw [h.test htest]
  cases ht : test w.cursor with
  | true => exact htrue ht
  | false => exact hfalse ht

/-- Walks in step do a rule or leave it out together. -/
theorem locked_onlyIf {test : Cursor → Bool} {x y : Locator Unit}
    {L : Unit → Walk (List Nat) → Walk.Outcome (List Nat) Unit → Prop} (h : p.Paired w v)
    (htest : ReadsToken test)
    (hx : test w.cursor = true → p.Locked L (x.run w) (y.run v)) :
    p.Locked L ((onlyIf test x).run w) ((onlyIf test y).run v) :=
  locked_ifLook h htest hx fun _ => .ok h

/-- Walks in step see the same kind of token. -/
theorem locked_kind {f g : TokenKind → Locator α} (h : p.Paired w v)
    (hk : ∀ k, p.Locked L ((f k).run w) ((g k).run v)) :
    p.Locked L ((kind >>= f).run w) ((kind >>= g).run v) := by
  show p.Locked L ((f w.cursor.current.kind).run w) ((g v.cursor.current.kind).run v)
  rw [p.kind_eq h.alike]
  exact hk _

/-- Walks in step meet a demand or fail at it together. -/
theorem locked_demand {test : Cursor → Bool} {cause : Cause}
    {L : Unit → Walk (List Nat) → Walk.Outcome (List Nat) Unit → Prop} (h : p.Paired w v)
    (htest : ReadsToken test) :
    p.Locked L ((demand test cause).run w) ((demand test cause).run v) :=
  locked_ifLook h htest (fun _ => .ok h) fun _ => .error h.stacked rfl

/-- The second walk is at the edge. -/
abbrev Here : Unit → Walk (List Nat) → Walk.Outcome (List Nat) Unit → Prop :=
  fun _ u o => o = .ok () u

/-- Going on either keeps the walks in step or brings them to the edge. -/
theorem locked_advance (h : p.Paired w v) :
    p.Locked (p.At Here) (advance.run w) (advance.run v) := by
  cases hnext : w.cursor.next with
  | ok c =>
    obtain ⟨d, hd, hcd⟩ := p.next_ok h.alike hnext
    simp only [advance, move, hnext, hd]
    rcases hcd with hcd | hcd
    · exact .ok ⟨hcd, h.stacked⟩
    · exact .parted (p.ends_of_cross hcd) ⟨{ v with cursor := d }, ⟨hcd, h.stacked⟩, rfl⟩
  | error fault =>
    simp only [advance, move, hnext]
    rcases p.next_error h.alike hnext with hends | ⟨fault', hd, hcause⟩
    · exact .failed hends
    · simp only [hd]
      exact .error h.stacked hcause

/-- A token of a kind is gone past.  Where the walks have parted, the first one has come to its end here. -/
theorem locked_expect {kind : TokenKind} {cause : Cause} (h : p.Paired w v) :
    p.Locked (p.At Here) ((expect kind cause).run w) ((expect kind cause).run v) := by
  show p.Locked _ (((require kind cause).run w).andThen fun _ => advance)
    (((require kind cause).run v).andThen fun _ => advance)
  exact (locked_demand h (readsToken_isKind kind)).andThen_inside fun _ _ _ _ h' => locked_advance h'

/-! ## §4. Loops. -/

/-- **Loops in step**, whatever their budgets.  `J` is an invariant of the first walk. -/
theorem locked_repeatUpTo {step step' : α → Locator (Bool × α)} {J : α → Walk (List Nat) → Prop}
    {S : Bool × α → Walk (List Nat) → Walk.Outcome (List Nat) (Bool × α) → Prop}
    (hstep : ∀ a w v, J a w → p.Paired w v → p.Locked S ((step a).run w) ((step' a).run v))
    (hJ : ∀ a w b w', J a w → (step a).run w = .ok (true, b) w' → J b w')
    (hparted : ∀ next w o k k', p.ends → S next w o → ∀ b w',
      (if next.1 then repeatUpTo step k next.2 else pure next.2).run w = .ok b w' →
      L b w' (o.andThen fun next => if next.1 then repeatUpTo step' k' next.2 else pure next.2))
    (k k' : Nat) {a : α} (hw : J a w) (h : p.Paired w v) :
    p.Locked L ((repeatUpTo step k a).run w) ((repeatUpTo step' k' a).run v) := by
  -- By induction on the first budget; where either is used up, that walk is too deep.
  induction k generalizing k' a w v with
  | zero => exact .deepFirst ⟨_, w, rfl⟩
  | succ k ih =>
    cases k' with
    | zero => exact .deepSecond ⟨_, v, rfl⟩
    | succ k' =>
      refine Locked.andThen (hstep a w v hw h) ?_ ?_
      · rintro ⟨again, b⟩ w' v' hrun h'
        cases again with
        | true => exact ih k' (hJ a w b w' hw hrun) h'
        | false => exact .ok h'
      · intro next w' _ hends hS b w'' hrun
        exact hparted next w' _ k k' hends hS b w'' hrun

end Pairing

end Fragment

end TypeAhead
