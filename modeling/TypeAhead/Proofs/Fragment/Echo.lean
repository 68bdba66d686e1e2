/-
  TypeAhead.Proofs.Fragment.Echo — A TEXT WITH A MEMBER AFTER IT.

  What a walk does over a text is repeated over the same text with a dot and a name
  after it.  A walk that succeeds is: equally deep, with the same open operands and
  the same results.  Where the text is over, the longer one stands on the dot, which
  some rule takes as soon as it is asked for; then that text is over as well.

  So is one that fails.  Amid the text it fails at the same token, be it for what is
  written there or because it is nested too deep.  Where the text is over, something is
  missing there, and what is missing is no member, so that the longer text fails on the
  member or past it with the same operands open.  The exception is an operand for which
  there was no token: in the longer text it starts with the dot.

      echo_bind           one rule after the other
      echo_nested         both walks are nested too deep, or neither is
      echo_repeatWhile    loops
-/
import TypeAhead.Proofs.Fragment.Progress

namespace TypeAhead.Fragment

open Walker

variable {α β : Type}

/-! ## §1. A member at the end of a text. -/

/-- A member, or nothing. -/
def EndOrMember (d : Cursor) : Prop := AtEnd d ∨ LastMember d

/-- The last token that was read is no question mark. -/
def AsksNothing (text : List Char) (c : Cursor) : Prop :=
  ∃ kind past, Reaches text (kind :: past) c ∧ kind ≠ .question

/-- The last token that was read of the first text is of the kind, and the second one goes on with the
member. -/
def MemberBehind (text : List Char) (kind : TokenKind) (c d : Cursor) : Prop :=
  LastMember d ∧ ∃ past, Reaches text (kind :: past) c

/-- The last token that was read of the first text is no question mark, and `K` holds of the place in the
second one. -/
def Through (text : List Char) (K : Cursor → Prop) (c d : Cursor) : Prop :=
  AsksNothing text c ∧ K d

/-- The innermost operand was opened where the text is over. -/
def OpensNothing (text : List Char) (w : Walk (List Nat)) : Prop :=
  w.held.head? = some (Text.byteSize text)

/-- A token that must be neither a dot nor the end of the text is not there. -/
theorem EndOrMember.isKind {d : Cursor} (h : EndOrMember d) {kind : TokenKind} (hkind : kind ≠ .dot)
    (hfinish : kind ≠ .finish) : d.isKind kind = false := by
  rcases h with hover | hmember
  · exact isKind_finish hfinish hover
  · exact hmember.isKind hkind

/-- A token of none of the two kinds is not there, whichever it is. -/
theorem EndOrMember.isAny {d : Cursor} (h : EndOrMember d) {kinds : List TokenKind} (hkinds : .dot ∉ kinds)
    (hfinish : .finish ∉ kinds) : d.isAny kinds = false := by
  rcases h with hover | hmember
  · exact isAny_finish hfinish hover
  · simpa [Cursor.isAny, hmember.dot] using hkinds

/-- The longer walk is not on a word. -/
theorem EndOrMember.isWord {d : Cursor} (h : EndOrMember d) (word : String) : d.isWord word = false := by
  rcases h with hover | hmember
  · exact isWord_finish hover
  · simp [Cursor.isWord, hmember.dot]

/-- There are just two kinds of tokens at which the longer walk may be. -/
theorem EndOrMember.kind_eq {d : Cursor} (h : EndOrMember d) :
    d.current.kind = .finish ∨ d.current.kind = .dot :=
  h.imp (fun h => by simpa [AtEnd, Token.isFinish] using h) LastMember.dot

/-- The second walk is on the member, or has taken it. -/
def Short (K : Cursor → Cursor → Prop) : Prop := ∀ c d, K c d → EndOrMember d

/-- Neither of the walks is at a token that the test accepts, if the first text is over. -/
structure Declines (test : Cursor → Bool) (K : Cursor → Cursor → Prop) : Prop where
  finish : ∀ c d, AtEnd c → K c d → test c = false
  beyond : ∀ c d, K c d → test d = false

section

variable {text : List Char} {kind : TokenKind} {K : Cursor → Cursor → Prop}

/-- Behind a token, the longer text goes on with the member. -/
theorem short_memberBehind : Short (MemberBehind text kind) := fun _ _ h => .inr h.1

/-- Behind any token but a question mark the text may be over. -/
theorem MemberBehind.through (hkind : kind ≠ .question) {c d : Cursor} (h : MemberBehind text kind c d) :
    Through text EndOrMember c d :=
  ⟨⟨kind, h.2.choose, h.2.choose_spec, hkind⟩, .inr h.1⟩

/-- A test for a kind of tokens fails on both walks, unless it is that of the dot or of the end. -/
theorem declines_isKind (hK : Short K) (hkind : kind ≠ .dot ∧ kind ≠ .finish) :
    Declines (fun c => c.isKind kind) K :=
  ⟨fun _ _ hc _ => isKind_finish hkind.2 hc, fun _ _ hd => (hK _ _ hd).isKind hkind.1 hkind.2⟩

/-- A test for several kinds fails on both walks, unless one of them is that of the dot or of the end. -/
theorem declines_isAny (hK : Short K) {kinds : List TokenKind} (hkinds : .dot ∉ kinds ∧ .finish ∉ kinds) :
    Declines (fun c => c.isAny kinds) K :=
  ⟨fun _ _ hc _ => isAny_finish hkinds.2 hc, fun _ _ hd => (hK _ _ hd).isAny hkinds.1 hkinds.2⟩

/-- A test for a word fails on both walks. -/
theorem declines_isWord (hK : Short K) (word : String) : Declines (fun c => c.isWord word) K :=
  ⟨fun _ _ hc _ => isWord_finish hc, fun _ _ hd => (hK _ _ hd).isWord word⟩

end

namespace Pairing

variable {p : Pairing} {w v : Walk (List Nat)} {K K' M : Cursor → Cursor → Prop}
  {o q : Walk.Outcome (List Nat) α} {x y : Locator α} {f g : α → Locator β}

/-- Where the first text ends, the second one goes on with a member.  The first one can be read to its
end. -/
structure Dotted (p : Pairing) : Prop where
  ends : p.ends
  member : ∀ {c d}, p.cross c d → LastMember d
  longer : ∀ {c d}, p.alike c d → c.size + 2 ≤ d.size
  reads : ∀ {c d}, p.alike c d → ∃ c', c.next = .ok c'

/-! ## §2. Walks that correspond. -/

/-- The walks are in step and equally deep. -/
structure Aligned (p : Pairing) (w v : Walk (List Nat)) : Prop extends p.Paired w v where
  depth_eq : v.depth = w.depth

/-- The first text is over, and `K` holds of the places of the two walks, which are equally deep. -/
structure Ended (p : Pairing) (K : Cursor → Cursor → Prop) (w v : Walk (List Nat)) : Prop where
  finished : AtEnd w.cursor
  reached : ∃ past, Reaches p.text past w.cursor
  beyond : K w.cursor v.cursor
  stacked : p.Stacked w.held v.held
  depth_eq : v.depth = w.depth

/-- If the first walk succeeds, so does the second one, with the same result. -/
def Succeeds (p : Pairing) (K : Cursor → Cursor → Prop) (o q : Walk.Outcome (List Nat) α) : Prop :=
  ∀ a w, o = .ok a w → ∃ v, q = .ok a v ∧ (p.Aligned w v ∨ p.Ended K w v)

/-- If the first walk fails, so does the second one with the same operands open, unless the first one has
just opened an operand at the end of its text. -/
def Fails (p : Pairing) (o q : Walk.Outcome (List Nat) α) : Prop :=
  ∀ failure w, o = .error failure w → OpensNothing p.text w ∨
    ∃ failure' v, q = .error failure' v ∧ failure'.isFault = failure.isFault ∧ p.Stacked w.held v.held

/-- The first walk does fail, and the second one in the same way. -/
def Stuck (p : Pairing) (o q : Walk.Outcome (List Nat) α) : Prop :=
  (∃ failure w, o = .error failure w) ∧ p.Fails o q

/-- **The second walk does what the first one does**, be it to succeed or to fail. -/
structure Echoes (p : Pairing) (K : Cursor → Cursor → Prop) (o q : Walk.Outcome (List Nat) α) : Prop where
  succeeds : p.Succeeds K o q
  fails : p.Fails o q

/-- Walks in step stand on tokens that a test cannot tell apart. -/
theorem Aligned.test {f : Cursor → β} (h : p.Aligned w v) (hf : ReadsToken f) :
    f v.cursor = f w.cursor :=
  h.toPaired.test hf

/-- The first text is not over yet. -/
theorem Aligned.isFinish (h : p.Aligned w v) (hp : p.Dotted) : w.cursor.current.isFinish = false :=
  p.finish_of_ends hp.ends h.alike

/-- Less may be said of where the walks are. -/
theorem Ended.imp (h : p.Ended K w v) (hK : ∀ c d, K c d → K' c d) : p.Ended K' w v :=
  ⟨h.finished, h.reached, hK _ _ h.beyond, h.stacked, h.depth_eq⟩

/-- Less may be said of where the walks are after success. -/
theorem Echoes.imp (h : p.Echoes K o q) (hK : ∀ c d, K c d → K' c d) : p.Echoes K' o q := by
  refine ⟨?_, h.fails⟩
  intro a w ho
  obtain ⟨v, hv, hcase⟩ := h.succeeds a w ho
  exact ⟨v, hv, hcase.imp_right (Ended.imp · hK)⟩

/-- Both walks have succeeded in step. -/
theorem echo_ok (a : α) (h : p.Aligned w v) : p.Echoes K (.ok a w) (.ok a v) := by
  constructor
  · intro b u hb
    cases hb
    exact ⟨v, rfl, .inl h⟩
  · intro failure u hu
    cases hu

/-- Both walks have succeeded, and the first text is over. -/
theorem echo_ended (a : α) (h : p.Ended K w v) : p.Echoes K (.ok a w) (.ok a v) := by
  constructor
  · intro b u hb
    cases hb
    exact ⟨v, rfl, .inr h⟩
  · intro failure u hu
    cases hu

/-- Walks that get stuck do the same, whatever comes after it. -/
theorem Stuck.echoes (h : p.Stuck o q) : p.Echoes K o q := by
  refine ⟨?_, h.2⟩
  rintro a w rfl
  obtain ⟨⟨failure, u, ho⟩, -⟩ := h
  cases ho

/-- Two walks fail with the same operands open, both by a fault or neither. -/
theorem stuck_error {failure failure' : Failure} (h : p.Stacked w.held v.held)
    (hfault : failure'.isFault = failure.isFault) :
    p.Stuck (.error failure w : Walk.Outcome (List Nat) α) (.error failure' v) := by
  refine ⟨⟨failure, w, rfl⟩, ?_⟩
  intro failure u hu
  cases hu
  exact .inr ⟨failure', v, rfl, hfault, h⟩

/-- The first walk fails in an operand that it opened at the end of its text; then nothing has to correspond.
-/
theorem stuck_opensNothing {failure : Failure} (h : OpensNothing p.text w) :
    p.Stuck (.error failure w : Walk.Outcome (List Nat) α) q := by
  refine ⟨⟨failure, w, rfl⟩, ?_⟩
  intro failure u hu
  cases hu
  exact .inl h

theorem echo_error {failure failure' : Failure} (h : p.Stacked w.held v.held)
    (hfault : failure'.isFault = failure.isFault) :
    p.Echoes K (.error failure w : Walk.Outcome (List Nat) α) (.error failure' v) :=
  (stuck_error h hfault).echoes

/-! ## §3. One rule after the other. -/

/-- Where walks got stuck, nothing more is done. -/
theorem Stuck.bind (h : p.Stuck (x.run w) (y.run v)) (f g : α → Locator β) :
    p.Stuck ((x >>= f).run w) ((y >>= g).run v) := by
  obtain ⟨⟨failure, u, hxw⟩, hfails⟩ := h
  rw [run_bind_of_error hxw]
  rcases hfails failure u hxw with hopens | ⟨failure', u', hyv, hfault, hstacked⟩
  · exact stuck_opensNothing hopens
  · rw [run_bind_of_error hyv]
    exact stuck_error hstacked hfault

/-- **One rule after the other**, where it matters how the first one came to its end. -/
theorem echo_bind_of_run (hx : p.Echoes K (x.run w) (y.run v))
    (haligned : ∀ a w' v', x.run w = .ok a w' → p.Aligned w' v' →
      p.Echoes M ((f a).run w') ((g a).run v'))
    (hended : ∀ a w' v', x.run w = .ok a w' → p.Ended K w' v' →
      p.Echoes M ((f a).run w') ((g a).run v')) :
    p.Echoes M ((x >>= f).run w) ((y >>= g).run v) := by
  cases hxw : x.run w with
  | ok a w' =>
    obtain ⟨v', hyv, hcase⟩ := hx.succeeds a w' hxw
    rw [run_bind_of_ok hxw, run_bind_of_ok hyv]
    rcases hcase with h | h
    · exact haligned a w' v' hxw h
    · exact hended a w' v' hxw h
  | error failure w' =>
    have hstuck : p.Stuck (x.run w) (y.run v) := ⟨⟨failure, w', hxw⟩, hx.fails⟩
    exact (hstuck.bind f g).echoes

/-- **One rule after the other.** -/
theorem echo_bind (hx : p.Echoes K (x.run w) (y.run v))
    (haligned : ∀ a w' v', x.run w = .ok a w' → p.Aligned w' v' →
      p.Echoes M ((f a).run w') ((g a).run v'))
    (hended : ∀ a w' v', p.Ended K w' v' → p.Echoes M ((f a).run w') ((g a).run v')) :
    p.Echoes M ((x >>= f).run w) ((y >>= g).run v) :=
  echo_bind_of_run hx haligned fun a w' v' _ => hended a w' v'

/-- At the limit a rule that is nested fails. -/
theorem run_nested_of_le (h : Limits.nesting ≤ w.depth) : (nested x).run w = (fail .tooDeep : Locator α).run w :=
  if_pos h

/-- Below the limit it is walked one level deeper. -/
theorem run_nested_of_not_le (h : ¬ Limits.nesting ≤ w.depth) :
    (nested x).run w = (between Walk.deeper Walk.shallower x).run w :=
  if_neg h

/-- Walks that got stuck one level deeper are stuck. -/
theorem Stuck.between (h : p.Stuck (x.run w.deeper) (y.run v.deeper)) :
    p.Stuck ((between Walk.deeper Walk.shallower x).run w) ((between Walk.deeper Walk.shallower y).run v) := by
  obtain ⟨⟨failure, u, hxw⟩, hfails⟩ := h
  unfold Walker.between
  dsimp only
  rw [hxw]
  rcases hfails failure u hxw with hopens | ⟨failure', u', hyv, hfault, hstacked⟩
  · have hopens : OpensNothing p.text u.shallower := hopens
    exact stuck_opensNothing hopens
  · rw [hyv]
    exact stuck_error hstacked hfault

/-- One level deeper.  As the walks are equally deep, the limit stops both of them or neither. -/
theorem echo_nested (h : p.Aligned w v)
    (hx : p.Aligned w.deeper v.deeper → p.Echoes K (x.run w.deeper) (y.run v.deeper)) :
    p.Echoes K ((nested x).run w) ((nested y).run v) := by
  -- The walks are equally deep, so that they meet the limit together.
  by_cases hdepth : Limits.nesting ≤ w.depth
  · rw [run_nested_of_le hdepth, run_nested_of_le (h.depth_eq ▸ hdepth)]
    exact echo_error h.stacked rfl
  rw [run_nested_of_not_le hdepth, run_nested_of_not_le (h.depth_eq ▸ hdepth)]
  have hechoes := hx ⟨⟨h.alike, h.stacked⟩, congrArg (· + 1) h.depth_eq⟩
  cases hxw : x.run w.deeper with
  -- On the way back both are one level higher again.
  | ok a u =>
    obtain ⟨u', hyv, hcase⟩ := hechoes.succeeds a u hxw
    unfold between
    dsimp only
    rw [hxw, hyv]
    rcases hcase with h' | h'
    · exact echo_ok a ⟨⟨h'.alike, h'.stacked⟩, congrArg (· - 1) h'.depth_eq⟩
    · exact echo_ended a ⟨h'.finished, h'.reached, h'.beyond, h'.stacked, congrArg (· - 1) h'.depth_eq⟩
  | error failure u =>
    have hstuck : p.Stuck (x.run w.deeper) (y.run v.deeper) := ⟨⟨failure, u, hxw⟩, hechoes.fails⟩
    exact hstuck.between.echoes

/-! ## §4. What is missing. -/

/-- At the end of the first text something is missing that the second one does not go on with. -/
def Missing (p : Pairing) (x y : Locator α) : Prop :=
  ∀ ⦃w v⦄, p.Ended (fun _ => EndOrMember) w v → p.Stuck (x.run w) (y.run v)

/-- What is missing fails, so that nothing has to be shown for success. -/
theorem Missing.echoes (hx : p.Missing x y) (hM : Short M) (h : p.Ended M w v) :
    p.Echoes K (x.run w) (y.run v) :=
  (hx (h.imp hM)).echoes

/-- Where the first rule fails, what follows is of no account. -/
theorem missing_bind (hx : p.Missing x y) (f g : α → Locator β) : p.Missing (x >>= f) (y >>= g) :=
  fun _ _ h => (hx h).bind f g

/-- A choice of which only one side comes into question there. -/
theorem missing_ifLook {test : Cursor → Bool} {x' y' : Locator α} (htest : ∀ c, EndOrMember c → test c = false)
    (hx : p.Missing x y) :
    p.Missing (do if ← look test then x' else x) (do if ← look test then y' else y) := by
  intro w v h
  show p.Stuck ((if test w.cursor then x' else x).run w) ((if test v.cursor then y' else y).run v)
  rw [htest _ (.inl h.finished), htest _ h.beyond]
  exact hx h

/-- A rule that is asked for at the end of the text and on the member is missing if it is missing itself. -/
theorem missing_onlyIf {test : Cursor → Bool} {x y : Locator Unit} (htest : ∀ c, EndOrMember c → test c = true)
    (hx : p.Missing x y) : p.Missing (onlyIf test x) (onlyIf test y) := by
  intro w v h
  rw [run_onlyIf, run_onlyIf, htest _ (.inl h.finished), htest _ h.beyond]
  exact hx h

/-- A demand that neither the end of the text nor the member meets. -/
theorem missing_demandThen {test : Cursor → Bool} {cause : Cause} {f g : Unit → Locator β}
    (htest : ∀ c, EndOrMember c → test c = false) :
    p.Missing (demand test cause >>= f) (demand test cause >>= g) := by
  refine missing_bind (fun w v h => ?_) f g
  rw [run_demand, run_demand, htest _ (.inl h.finished), htest _ h.beyond]
  exact stuck_error h.stacked rfl

/-- What is missing is missing one level deeper, unless the walks are nested too deep already. -/
theorem missing_nested (hx : p.Missing x y) : p.Missing (nested x) (nested y) := by
  intro w v h
  by_cases hdepth : Limits.nesting ≤ w.depth
  · rw [run_nested_of_le hdepth, run_nested_of_le (h.depth_eq ▸ hdepth)]
    exact stuck_error h.stacked rfl
  rw [run_nested_of_not_le hdepth, run_nested_of_not_le (h.depth_eq ▸ hdepth)]
  have hdeeper : p.Ended (fun _ => EndOrMember) w.deeper v.deeper :=
    ⟨h.finished, h.reached, h.beyond, h.stacked, congrArg (· + 1) h.depth_eq⟩
  exact (hx hdeeper).between

/-- A loop of which the first round misses something. -/
theorem missing_repeatUpTo {step step' : α → Locator (Bool × α)} {a : α} (hstep : p.Missing (step a) (step' a))
    (k k' : Nat) : p.Missing (repeatUpTo step (k + 1) a) (repeatUpTo step' (k' + 1) a) :=
  missing_bind hstep _ _

/-- A loop whose first round is missing. -/
theorem missing_repeatStep {step step' : α → Locator (Bool × α)} {a : α} (hstep : p.Missing (step a) (step' a)) :
    p.Missing (repeatStep step a) (repeatStep step' a) := by
  intro w v h
  rw [run_repeatStep, run_repeatStep]
  exact missing_repeatUpTo hstep _ _ h

/-! ## §5. Looking and going on. -/

/-- A choice by the current token. -/
theorem echo_ifLook {test : Cursor → Bool} {x y x' y' : Locator α} (h : p.Aligned w v)
    (htest : ReadsToken test) (htrue : test w.cursor = true → p.Echoes K (x.run w) (x'.run v))
    (hfalse : test w.cursor = false → p.Echoes K (y.run w) (y'.run v)) :
    p.Echoes K ((do if ← look test then x else y : Locator α).run w)
      ((do if ← look test then x' else y' : Locator α).run v) := by
  show p.Echoes K ((if test w.cursor then x else y).run w) ((if test v.cursor then x' else y').run v)
  rw [h.test htest]
  cases ht : test w.cursor with
  | true => exact htrue ht
  | false => exact hfalse ht

/-- A choice that both walks decline. -/
theorem ended_ifLook {test : Cursor → Bool} {x y x' y' : Locator α} (h : p.Ended M w v)
    (htest : Declines test M) (hfalse : p.Echoes K (y.run w) (y'.run v)) :
    p.Echoes K ((do if ← look test then x else y : Locator α).run w)
      ((do if ← look test then x' else y' : Locator α).run v) := by
  show p.Echoes K ((if test w.cursor then x else y).run w) ((if test v.cursor then x' else y').run v)
  rw [htest.finish _ _ h.finished h.beyond, htest.beyond _ _ h.beyond]
  exact hfalse

/-- What follows a look at the kind of the current token. -/
theorem echo_kind {f g : TokenKind → Locator α} (h : p.Aligned w v)
    (hf : p.Echoes K ((f w.cursor.current.kind).run w) ((g w.cursor.current.kind).run v)) :
    p.Echoes K ((kind >>= f).run w) ((kind >>= g).run v) := by
  show p.Echoes K ((f w.cursor.current.kind).run w) ((g v.cursor.current.kind).run v)
  rw [p.kind_eq h.alike]
  exact hf

section

variable {test : Cursor → Bool} {cause : Cause} {x y : Locator Unit}

/-- Walks in step go the same way at a test. -/
theorem echo_onlyIf (h : p.Aligned w v) (htest : ReadsToken test)
    (hx : test w.cursor = true → p.Echoes K (x.run w) (y.run v)) :
    p.Echoes K ((onlyIf test x).run w) ((onlyIf test y).run v) :=
  echo_ifLook h htest hx fun _ => echo_ok () h

/-- What neither the end of the text nor the member asks for is left out by both walks. -/
theorem ended_onlyIf (h : p.Ended K w v) (htest : Declines test K) :
    p.Echoes K ((onlyIf test x).run w) ((onlyIf test y).run v) :=
  ended_ifLook h htest (echo_ended () h)

/-- After a demand the walks are where they were, at a token that passes the test. -/
theorem echo_demandThen {f g : Unit → Locator β} (h : p.Aligned w v) (htest : ReadsToken test)
    (hf : test w.cursor = true → p.Echoes K ((f ()).run w) ((g ()).run v)) :
    p.Echoes K ((demand test cause >>= f).run w) ((demand test cause >>= g).run v) := by
  show p.Echoes K (((demand test cause).run w).andThen f) (((demand test cause).run v).andThen g)
  rw [run_demand, run_demand, h.test htest]
  cases ht : test w.cursor with
  | true => exact hf ht
  | false => exact echo_error h.stacked rfl

/-- Walks in step meet a demand or fail at it together. -/
theorem echo_demand (h : p.Aligned w v) (htest : ReadsToken test) :
    p.Echoes K ((demand test cause).run w) ((demand test cause).run v) := by
  rw [run_demand, run_demand, h.test htest]
  cases test w.cursor with
  | true => exact echo_ok () h
  | false => exact echo_error h.stacked rfl

/-- What neither the end of the text nor the member offers is missed by both walks. -/
theorem ended_demandThen {f g : Unit → Locator β} (h : p.Ended M w v) (htest : Declines test M) :
    p.Echoes K ((demand test cause >>= f).run w) ((demand test cause >>= g).run v) := by
  show p.Echoes K (((demand test cause).run w).andThen f) (((demand test cause).run v).andThen g)
  rw [run_demand, run_demand, htest.finish _ _ h.finished h.beyond, htest.beyond _ _ h.beyond]
  exact echo_error h.stacked rfl

/-- A token that is demanded where the text is over is in neither text. -/
theorem ended_expectThen {kind : TokenKind} {f g : Unit → Locator β} (h : p.Ended M w v) (hM : Short M)
    (hkind : kind ≠ .dot ∧ kind ≠ .finish) :
    p.Echoes K ((expect kind cause >>= f).run w) ((expect kind cause >>= g).run v) := by
  show p.Echoes K ((((demand (fun c => c.isKind kind) cause).run w).andThen fun _ => advance).andThen f)
    ((((demand (fun c => c.isKind kind) cause).run v).andThen fun _ => advance).andThen g)
  have htest : Declines (fun c => c.isKind kind) M := declines_isKind hM hkind
  rw [run_demand, run_demand, htest.finish _ _ h.finished h.beyond, htest.beyond _ _ h.beyond]
  exact echo_error h.stacked rfl

/-- A token that is demanded where the text is over, with nothing after it. -/
theorem ended_expect {kind : TokenKind} (h : p.Ended M w v) (hM : Short M)
    (hkind : kind ≠ .dot ∧ kind ≠ .finish) :
    p.Echoes K ((expect kind cause).run w) ((expect kind cause).run v) :=
  ended_demandThen h (declines_isKind hM hkind)

/-- A test that is demanded where the text is over, and fails in both texts. -/
theorem ended_demand (h : p.Ended M w v) (htest : Declines test M) :
    p.Echoes K ((demand test cause).run w) ((demand test cause).run v) := by
  rw [run_demand, run_demand, htest.finish _ _ h.finished h.beyond, htest.beyond _ _ h.beyond]
  exact echo_error h.stacked rfl

/-- The first walk goes on to the end of its text, or both go on alike. -/
theorem next_of_aligned (hp : p.Dotted) (h : p.Aligned w v) :
    ∃ c d past, w.cursor.next = .ok c ∧ v.cursor.next = .ok d ∧
      Reaches p.text (w.cursor.current.kind :: past) c ∧
      (p.Aligned { w with cursor := c } { v with cursor := d } ∨ AtEnd c ∧ LastMember d) := by
  obtain ⟨c, hnext⟩ := hp.reads h.alike
  obtain ⟨past, hstands⟩ := p.stands h.alike
  obtain ⟨d, hd, hcase⟩ := p.next_ok h.alike hnext
  refine ⟨c, d, past, hnext, hd, (hstands.next (h.isFinish hp) hnext).1, ?_⟩
  rcases hcase with halike | hcross
  · exact .inl ⟨⟨halike, h.stacked⟩, h.depth_eq⟩
  · exact .inr ⟨p.finish_of_cross hcross, hp.member hcross⟩

/-- Where the first text is over after a token of some kind, the second one is on the member. -/
theorem echo_advance (hp : p.Dotted) (h : p.Aligned w v) :
    p.Echoes (MemberBehind p.text w.cursor.current.kind) (advance.run w) (advance.run v) := by
  obtain ⟨c, d, past, hc, hd, hreaches, hcase⟩ := next_of_aligned hp h
  rw [run_advance hc, run_advance hd]
  rcases hcase with haligned | ⟨hover, hmember⟩
  · exact echo_ok () haligned
  · exact echo_ended () ⟨hover, ⟨_, hreaches⟩, ⟨hmember, past, hreaches⟩, h.stacked, h.depth_eq⟩

theorem kind_of_isKind {c : Cursor} {kind : TokenKind} (h : c.isKind kind = true) :
    c.current.kind = kind := by
  simpa [Cursor.isKind] using h

/-- A token of a kind is gone past.  The text may be over behind it. -/
theorem echo_expect (hp : p.Dotted) (h : p.Aligned w v) {kind : TokenKind} :
    p.Echoes (MemberBehind p.text kind) ((expect kind cause).run w) ((expect kind cause).run v) :=
  echo_demandThen h (readsToken_isKind kind) fun hk => kind_of_isKind hk ▸ echo_advance hp h

/-! ## §6. Loops. -/

/-- Fewer tokens are ahead of the first walk than its loops have rounds. -/
theorem ahead_lt_of_aligned (h : p.Aligned w v) : w.cursor.ahead < w.cursor.size + 2 := by
  obtain ⟨past, hstands⟩ := p.stands h.alike
  exact Nat.lt_succ_of_le hstands.ahead_le_size

/-- **A loop is repeated**: its rounds take tokens, so that the first walk does not run out of them, and the
second one has two rounds more to spare.  What the loops do where the first text is over is asked of
`hended`, and of `hstops` for a round that is the last one. -/
theorem echo_repeatUpTo {step step' : α → Locator (Bool × α)} (hrounds : RoundsConsume step)
    (hstep : ∀ a w v, p.Aligned w v → p.Echoes K ((step a).run w) ((step' a).run v))
    (hstops : ∀ a b w w' v v', p.Aligned w v → (step a).run w = .ok (false, b) w' → p.Ended K w' v' →
      p.Ended M w' v')
    (hended : ∀ a w v k k', k + 3 ≤ k' → p.Ended K w v →
      p.Echoes M ((repeatUpTo step (k + 1) a).run w) ((repeatUpTo step' k' a).run v))
    {k k' : Nat} (hahead : w.cursor.ahead < k) (hk : k + 2 ≤ k') (a : α) (h : p.Aligned w v) :
    p.Echoes M ((repeatUpTo step k a).run w) ((repeatUpTo step' k' a).run v) := by
  -- By induction on the rounds of the first loop, of which there are more than tokens ahead.
  induction k generalizing k' a w v with
  | zero => cases hahead
  | succ k ih =>
    obtain ⟨k', rfl⟩ : ∃ n, k' = n + 1 := ⟨k' - 1, by omega⟩
    -- A round that asks for another one has taken a token, which keeps the measure.
    have hleft : ∀ {b w'}, (step a).run w = .ok (true, b) w' → w'.cursor.ahead < k := by
      intro b w' hrun
      have hless := (hrounds a w b w' hrun).ahead_lt
      omega
    refine echo_bind_of_run (hstep a w v h) (fun next w' v' hrun h' => ?_) fun next w' v' hrun h' => ?_ <;>
      obtain ⟨again, b⟩ := next <;> cases again
    · exact echo_ok b h'
    · exact ih (hleft hrun) (by omega) b h'
    · exact echo_ended b (hstops a b w w' v v' h hrun h')
    -- Where the text is over with a round, what comes next is the loop at its end.
    · obtain ⟨k, rfl⟩ : ∃ n, k = n + 1 := ⟨k - 1, by have := hleft hrun; omega⟩
      exact hended b w' v' k k' (by omega) h'

/-- A loop has two rounds more for the longer text, which the dot and the name may take. -/
theorem echo_repeatStep {step step' : α → Locator (Bool × α)} (hp : p.Dotted) (hrounds : RoundsConsume step)
    (hstep : ∀ a w v, p.Aligned w v → p.Echoes K ((step a).run w) ((step' a).run v))
    (hended : ∀ a w v k k', k + 3 ≤ k' → p.Ended K w v →
      p.Echoes K ((repeatUpTo step (k + 1) a).run w) ((repeatUpTo step' k' a).run v))
    (a : α) (h : p.Aligned w v) :
    p.Echoes K ((repeatStep step a).run w) ((repeatStep step' a).run v) := by
  rw [run_repeatStep, run_repeatStep]
  exact echo_repeatUpTo hrounds hstep (fun _ _ _ _ _ _ _ _ hover => hover) hended (ahead_lt_of_aligned h)
    (Nat.add_le_add_right (hp.longer h.alike) 2) a h

/-- Loops that go on as long as a test holds. -/
theorem echo_repeatWhile {step step' : Locator Unit} (hp : p.Dotted) (htest : ReadsToken test)
    (hrounds : RoundsConsume (whileStep test step))
    (hstep : ∀ w v, p.Aligned w v → test w.cursor = true → p.Echoes K (step.run w) (step'.run v))
    (hended : ∀ w v k k', k + 3 ≤ k' → p.Ended K w v →
      p.Echoes M ((repeatUpTo (whileStep test step) (k + 1) ()).run w)
        ((repeatUpTo (whileStep test step') k' ()).run v))
    (h : p.Aligned w v) :
    p.Echoes M ((repeatWhile test step).run w) ((repeatWhile test step').run v) := by
  rw [run_repeatWhile, run_repeatWhile]
  refine echo_repeatUpTo hrounds ?_ ?_ (fun _ => hended) (ahead_lt_of_aligned h)
    (Nat.add_le_add_right (hp.longer h.alike) 2) () h
  · intro _ w v h
    cases ht : test w.cursor with
    | true =>
      rw [Rule.run_whileStep_of_test step ht, Rule.run_whileStep_of_test step' ((h.test htest).trans ht)]
      exact echo_bind (hstep w v h ht) (fun _ _ _ _ h' => echo_ok _ h') fun _ _ _ h' => echo_ended _ h'
    | false =>
      rw [Rule.run_whileStep_of_not step ht, Rule.run_whileStep_of_not step' ((h.test htest).trans ht)]
      exact echo_ok _ h
  · -- A round that stops the loop takes nothing, so the text is not over with it.
    intro _ _ w w' v v' h hrun hover
    cases ht : test w.cursor with
    | true =>
      rw [Rule.run_whileStep_of_test step ht] at hrun
      obtain ⟨_, _, -, hstop⟩ := eq_ok_of_bind hrun
      cases hstop
    | false =>
      rw [Rule.run_whileStep_of_not step ht] at hrun
      cases hrun
      cases (h.isFinish hp).symm.trans hover.finished

/-- A loop ends where its test does. -/
theorem test_of_repeatWhile {step : Locator Unit} {a : Unit}
    (h : (repeatWhile test step).run w = .ok a v) : test v.cursor = false := by
  rw [run_repeatWhile] at h
  -- The rounds are counted down while the walk moves, so their number is any for the induction.
  generalize w.cursor.size + 2 = k at h
  induction k generalizing w with
  | zero => cases h
  | succ k ih =>
    cases ht : test w.cursor with
    | true =>
      rw [Rule.run_loop_of_test step k ht] at h
      obtain ⟨_, u, -, h⟩ := eq_ok_of_bind h
      exact ih h
    | false =>
      rw [Rule.run_loop_of_not step k ht] at h
      cases h
      exact ht

/-- A loop that neither the end of the text nor the member asks to go on is over in both walks. -/
theorem ended_loop {step step' : Locator Unit} (htest : Declines test K) (k : Nat) {k' : Nat} (hk : 0 < k')
    (h : p.Ended K w v) :
    p.Echoes K ((repeatUpTo (whileStep test step) (k + 1) ()).run w)
      ((repeatUpTo (whileStep test step') k' ()).run v) := by
  obtain ⟨k', rfl⟩ := Nat.exists_eq_succ_of_ne_zero (Nat.ne_of_gt hk)
  rw [Rule.run_loop_of_not step k (htest.finish _ _ h.finished h.beyond),
    Rule.run_loop_of_not step' k' (htest.beyond _ _ h.beyond)]
  exact echo_ended () h

/-- A loop that does not start at all where the text is over. -/
theorem ended_repeatWhile {step step' : Locator Unit} (htest : Declines test K) (h : p.Ended K w v) :
    p.Echoes K ((repeatWhile test step).run w) ((repeatWhile test step').run v) := by
  rw [run_repeatWhile, run_repeatWhile]
  exact ended_loop htest _ (Nat.succ_pos _) h

end

end Pairing

end TypeAhead.Fragment
