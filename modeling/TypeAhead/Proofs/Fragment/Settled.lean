/-
  TypeAhead.Proofs.Fragment.Settled — WALKS THAT HAVE FOUND THEIR FRAGMENT.

  Once a walk is over with an operand open, at the end of the text or at a fault,
  nothing around it changes the answer: the rules under way either go on with
  nothing at the end of the text, or they fail there too.  What is innermost
  stays so.

  Most rules call another one first, and so does that one, down to an operand by
  itself.  What comes of that is passed up through frames.

      Frame.settled       rules under way keep the answer
      of_primary          from the first operand up to the whole expression
      Completes.settled   a text at the end of a longer one
      Completes.ends      a text at the start of a longer one, or amid it
-/
import TypeAhead.Proofs.Fragment.Answer
import TypeAhead.Proofs.Fragment.InStep
import TypeAhead.Proofs.Fragment.Within

namespace TypeAhead.Fragment

open Walker

variable {α β : Type}

/-! ## §1. Settled walks. -/

/-- The walk is over with an operand at `start` open, the innermost one: at the end of the text or at
a fault.  A walk that is too deep counts as well. -/
def Settled (start : Nat) (o : Walk.Outcome (List Nat) α) : Prop :=
  o.TooDeep ∨ ∃ w, w.held.head? = some start ∧
    ((∃ a, o = .ok a w ∧ w.cursor.current.isFinish = true) ∨ ∃ fault, o = .error (.fault fault) w)

/-- Where a text is over, the rule ends with what is open then. -/
def Halts (x : Locator α) : Prop :=
  ∀ w, w.cursor.current.isFinish = true → (x.run w).TooDeep ∨ ∃ v, Rule.SamePlace w v ∧
    ((∃ a, x.run w = .ok a v) ∨ ∃ fault, x.run w = .error (.fault fault) v)

variable {start : Nat} {o : Walk.Outcome (List Nat) α} {w : Walk (List Nat)}

/-- What halts at the end of a text leaves the answer alone. -/
theorem Settled.andThen (h : Settled start o) {f : α → Locator β} (hf : ∀ a, Halts (f a)) :
    Settled start (o.andThen f) := by
  rcases h with hdeep | ⟨w, hheld, ⟨a, rfl, hw⟩ | ⟨fault, rfl⟩⟩
  · exact .inl (hdeep.andThen f)
  · rcases hf a w hw with hdeep | ⟨v, hv, ⟨b, hb⟩ | hfault⟩
    · exact .inl hdeep
    · exact .inr ⟨v, hv.2 ▸ hheld, .inl ⟨b, hb, hv.1 ▸ hw⟩⟩
    · exact .inr ⟨v, hv.2 ▸ hheld, .inr hfault⟩
  · exact .inr ⟨w, hheld, .inr ⟨fault, rfl⟩⟩

theorem halts_demand (test : Cursor → Bool) (cause : Cause) :
    Halts (demand test cause : Locator Unit) := by
  intro w _
  rw [run_demand]
  split
  · exact .inr ⟨w, ⟨rfl, rfl⟩, .inl ⟨(), rfl⟩⟩
  · exact .inr ⟨w, ⟨rfl, rfl⟩, .inr ⟨_, rfl⟩⟩

theorem halts_advance : Halts advance := by
  intro w hw
  rw [run_advance (if_pos hw)]
  exact .inr ⟨w, ⟨rfl, rfl⟩, .inl ⟨(), rfl⟩⟩

theorem halts_bind {x : Locator α} {f : α → Locator β} (hx : Halts x) (hf : ∀ a, Halts (f a)) :
    Halts (x >>= f) := by
  intro w hw
  rw [run_bind]
  rcases hx w hw with hdeep | ⟨v, hv, ⟨a, ha⟩ | ⟨fault, hfault⟩⟩
  · exact .inl (hdeep.andThen f)
  · rw [ha]
    rcases hf a v (hv.1 ▸ hw) with hdeep | ⟨u, hu, hend⟩
    · exact .inl hdeep
    · exact .inr ⟨u, ⟨hu.1.trans hv.1, hu.2.trans hv.2⟩, hend⟩
  · rw [hfault]
    exact .inr ⟨v, hv, .inr ⟨fault, rfl⟩⟩

theorem halts_expect (kind : TokenKind) (cause : Cause) : Halts (expect kind cause) :=
  halts_bind (halts_demand _ cause) fun _ => halts_advance

theorem halts_onlyIf {test : Cursor → Bool} (x : Locator Unit)
    (htest : ∀ c, c.current.isFinish = true → test c = false) : Halts (onlyIf test x) :=
  fun w hw => .inr ⟨w, ⟨rfl, rfl⟩, .inl ⟨(), Rule.run_onlyIf_of_not (htest _ hw)⟩⟩

theorem halts_goOn {test : Cursor → Bool} (step : Locator Unit) (budget : Option Nat)
    (htest : ∀ c, c.current.isFinish = true → test c = false) :
    Halts (goOn test step budget) := by
  intro w hw
  rcases Rule.run_goOn_of_not step budget (htest _ hw) with hdeep | hok
  · exact .inl hdeep
  · exact .inr ⟨w, ⟨rfl, rfl⟩, .inl ⟨(), hok⟩⟩

/-- **A walk in step with one that is over has the same operand open.** -/
theorem settled_of_locked {text : List Char} {shift : Nat} {base : List Nat}
    {L : α → Walk (List Nat) → Walk.Outcome (List Nat) α → Prop}
    {o o' : Walk.Outcome (List Nat) α}
    (h : (within text [] shift base follows_nil).Locked L o o') {a : α} (ho : o = .ok a w)
    (hw : w.cursor.current.isFinish = true) (hheld : w.held.head? = some start) :
    Settled (start + shift) o' := by
  -- Both walks succeed, or the second one is too deep, as the text has no edge.
  cases h with
  | @ok _ _ v h =>
    cases ho
    -- The innermost operands of the two walks correspond.
    obtain ⟨top, htop, hplaces⟩ := h.stacked
    obtain ⟨starts, hstarts⟩ := List.head?_eq_some_iff.1 hheld
    rw [hstarts] at hplaces
    refine .inr ⟨v, ?_, .inl ⟨a, rfl, ?_⟩⟩
    · cases hplaces with
      | cons hplace _ =>
        have hplace : _ = start + shift := hplace
        rw [htop, hplace]
        rfl
    · rw [Token.isFinish, h.alike.kind_eq]
      exact hw
  | error => cases ho
  | deepFirst hdeep =>
    obtain ⟨position, v, hdeep⟩ := hdeep
    cases ho.symm.trans hdeep
  | deepSecond hdeep => exact .inl hdeep
  | failed hends => exact absurd rfl hends
  | parted hends => exact absurd rfl hends

/-! ## §2. Frames. -/

namespace Rule

variable {parsing : Parsing} {call : Rule → Locator Unit} {rule sub : Rule} {test : Cursor → Bool}
  {after : Located → Located}

/-- **Rules under way keep the answer.** -/
theorem Frame.settled (h : Frame call rule sub test after) {o : Located} (ho : Settled start o) :
    Settled start (after o) := by
  rcases ho with hdeep | ⟨w, hheld, ⟨_, rfl, hw⟩ | ⟨fault, rfl⟩⟩
  · exact .inl (h.tooDeep hdeep)
  · rcases h.pass (h.test_finish hw) with hdeep | ⟨v, hv, hcursor, hopen⟩
    · exact .inl hdeep
    · exact .inr ⟨v, hopen (.inr hw) ▸ hheld, .inl ⟨(), hv, hcursor ▸ hw⟩⟩
  · obtain ⟨v, hv, hsame⟩ := h.error (.fault fault)
    exact .inr ⟨v, hsame.2 ▸ hheld, .inr ⟨fault, hv⟩⟩

/-- The rule that a rule calls first. -/
def first? : Rule → Option Rule
  | conditional => some coalescing
  | coalescing => some projection
  | projection => some disjunction
  | disjunction => some conjunction
  | conjunction => some containment
  | containment => some bitwise
  | bitwise => some comparison
  | comparison => some shift
  | shift => some sum
  | sum => some product
  | product => some unary
  | unary => some operand
  | operand => some primary
  | _ => none

/-- Down to the operand there is always a first call. -/
theorem isSome_first?_of_first? (h : rule.first? = some sub) (hrule : rule ≠ operand) :
    sub.first?.isSome = true := by
  cases rule <;> cases h <;> first | rfl | exact absurd rfl hrule

/-- What comes of a rule is what its frame makes of its first call. -/
theorem run_first (parsing : Parsing) (w : Walk (List Nat)) (h : rule.first? = some sub) (budget : Nat)
    (hw : rule = unary → isSign w.cursor = false) :
    ((run parsing (budget + 1) rule).run w).TooDeep ∨ ∃ test after v,
      Frame (run parsing budget) rule sub test after ∧
      (run parsing (budget + 1) rule).run w = after ((run parsing budget sub).run v) ∧
      v.cursor = w.cursor ∧
      v.held = (if rule = operand then w.cursor.current.start :: w.held else w.held) ∧
      (w.depth ≤ Limits.nesting → v.depth ≤ Limits.nesting) := by
  -- A nested rule starts one level deeper, where there is room for it.
  have hnested : ∀ {x : Locator Unit}, ((nested x).run w).TooDeep ∨ ∃ v : Walk (List Nat),
      (nested x).run w = (x.run v).leave ∧ v.cursor = w.cursor ∧ v.held = w.held ∧
        (w.depth ≤ Limits.nesting → v.depth ≤ Limits.nesting) :=
    fun {x} => (run_nested x w).imp id fun ⟨hrun, hdepth⟩ => ⟨w.deeper, hrun, rfl, rfl, fun _ => hdepth⟩
  -- Each rule starts with the one that binds next tighter; those below the operand do not.
  cases rule with
  | conditional =>
    cases h
    refine hnested.imp id ?_
    rintro ⟨v, hrun, hv⟩
    exact ⟨_, _, v, .question, hrun, hv⟩
  | coalescing => cases h; exact .inr ⟨_, _, w, .coalesce, rfl, rfl, rfl, id⟩
  | projection => cases h; exact .inr ⟨_, _, w, .arrow, rfl, rfl, rfl, id⟩
  | disjunction | conjunction | bitwise | comparison | shift | sum | product =>
    cases h
    exact .inr ⟨_, _, w, .operators none rfl, rfl, rfl, rfl, id⟩
  | containment => cases h; exact .inr ⟨_, _, w, .container none (.inl rfl), rfl, rfl, rfl, id⟩
  | unary =>
    cases h
    refine hnested.imp id ?_
    rintro ⟨v, hrun, hv, hrest⟩
    refine ⟨_, _, v, .unary (.inr rfl), ?_, hv, hrest⟩
    rw [show (run parsing (budget + 1) unary).run w = _ from hrun]
    show ((if isSign v.cursor then _ else run parsing budget operand : Locator Unit).run v).leave = _
    rw [hv, hw rfl]
    rfl
  | operand =>
    cases h
    exact .inr ⟨_, _, opened w, .attached none (.inl rfl),
      (Walk.Outcome.andThen_assoc _ (fun _ => attached (run parsing budget))
        fun _ => closeOperand).symm, rfl, rfl, id⟩
  | _ => cases h

/-- **What holds of an operand by itself and is passed on by frames holds of every rule that comes to
that operand first.** -/
theorem of_primary {V : Located → Prop} (hdeep : ∀ o, o.TooDeep → V o)
    (hframe : ∀ {call rule sub test after o}, Frame call rule sub test after → V o → V (after o))
    {c : Cursor} (hc : isSign c = false)
    (hprimary : ∀ budget v, v.cursor = c → v.held = [c.current.start] → v.depth ≤ Limits.nesting →
      V ((run parsing budget primary).run v)) (budget : Nat) (hrule : rule.first?.isSome = true)
    (hw : w.cursor = c) (hheld : w.held = []) (hdepth : w.depth ≤ Limits.nesting) :
    V ((run parsing budget rule).run w) := by
  -- By induction on the budget, down the first calls.
  induction budget generalizing rule w with
  | zero => exact hdeep _ ⟨_, w, rfl⟩
  | succ budget ih =>
    obtain ⟨sub, hsub⟩ := Option.isSome_iff_exists.1 hrule
    rcases run_first parsing w hsub budget fun _ => hw ▸ hc with
      htooDeep | ⟨test, after, v, hframe', hrun, hv, hvheld, hvdepth⟩
    · exact hdeep _ htooDeep
    · rw [hrun]
      -- What is done after the first call keeps `V`, and so it has to hold of that call.
      refine hframe hframe' ?_
      by_cases hoperand : rule = operand
      · subst hoperand
        cases hsub
        rw [if_pos rfl, hheld, hw] at hvheld
        exact hprimary budget v (hv.trans hw) hvheld (hvdepth hdepth)
      · rw [if_neg hoperand] at hvheld
        exact ih (isSome_first?_of_first? hsub hoperand) (hv.trans hw) (hvheld.trans hheld) (hvdepth hdepth)

end Rule

/-! ## §3. Complete walks. -/

/-- The walk of the text is complete: it succeeds at the end of the text, with the operands at
`starts` open, the innermost first. -/
def Completes (parsing : Parsing) (text : String) (starts : List Nat) : Prop :=
  ∃ c w, Cursor.open? text.toList = .ok c ∧ walk parsing c = .ok () w ∧
    w.cursor.current.isFinish = true ∧ w.held = starts

variable {parsing : Parsing} {text : String} {starts : List Nat} {c : Cursor}

/-- A complete walk starts at a token. -/
theorem Completes.isFinish_of_open (h : Completes parsing text starts)
    (hopen : Cursor.open? text.toList = .ok c) : c.current.isFinish = false := by
  obtain ⟨c', w, hopen', hwalk, -, -⟩ := h
  cases hopen.symm.trans hopen'
  cases hc : c.current.isFinish with
  | false => rfl
  | true => exact absurd hwalk (Rule.never_run parsing _ .conditional ⟨nofun, nofun⟩ _ hc _ _)

theorem Completes.locate (h : Completes parsing text starts) :
    locate parsing text = .ok (ofOpen text.toList starts none) := by
  obtain ⟨c, w, hopen, hwalk, -, rfl⟩ := h
  exact locate_of_ok hopen hwalk

/-- **A text inside a longer one is walked to the same end** by the rule for whole expressions, with
whatever budget and whatever is open before it. -/
theorem Completes.settled (h : Completes parsing text starts) (hstart : starts.head? = some start)
    (hopen : Cursor.open? text.toList = .ok c) {shift : Nat}
    (hw : Alike text.toList [] shift c w.cursor) (budget : Nat) :
    Settled (start + shift) ((Rule.run parsing budget .conditional).run w) := by
  obtain ⟨c', v, hopen', hwalk, hv, rfl⟩ := h
  cases hopen.symm.trans hopen'
  have hpaired : (within text.toList [] shift w.held follows_nil).Paired ⟨c, 0, []⟩ w :=
    ⟨hw, [], rfl, .nil⟩
  exact settled_of_locked ((Rule.inStep_run _ parsing (Rule.budget c.size) budget).enter hpaired
    (by decide)) hwalk hv hstart

/-- The walk has come to the edge of a text, with `starts` open in the text by itself, `shift` bytes
further on and over `base` in the longer text. -/
structure Edge (text more : List Char) (shift : Nat) (starts base : List Nat) (u : Walk (List Nat)) :
    Prop where
  cursor : AtEdge text more shift u.cursor
  held : ∃ top, u.held = top ++ base ∧ List.Forall₂ (fun a b => b = a + shift) starts top

/-- **A text that others follow is walked to its edge.**  What becomes of the walk there is told by
what is left of the rules under way. -/
theorem Completes.ends (h : Completes parsing text starts) {more : List Char} (hmore : Follows more)
    (hne : more ≠ []) (hopen : Cursor.open? text.toList = .ok c) {shift : Nat}
    (hw : Alike text.toList more shift c w.cursor) (budget : Nat) :
    ((Rule.run parsing budget .conditional).run w).TooDeep ∨ ∃ u,
      Edge text.toList more shift starts w.held u ∧
      Rule.Ends parsing text.toList u budget .conditional
        ((Rule.run parsing budget .conditional).run w) := by
  obtain ⟨c', v, hopen', hwalk, hv, rfl⟩ := h
  cases hopen.symm.trans hopen'
  have hpaired : (within text.toList more shift w.held hmore).Paired ⟨c, 0, []⟩ w :=
    ⟨hw, [], rfl, .nil⟩
  -- The two walks start in step, with nothing open in the shorter one.
  have hlocked := (Rule.inStep_run _ parsing (Rule.budget c.size) budget).enter
    (r := .conditional) hpaired (by decide)
  rw [show (Rule.run parsing (Rule.budget c.size) .conditional).run ⟨c, 0, []⟩ = .ok () v
    from hwalk] at hlocked
  generalize (Rule.run parsing budget .conditional).run w = o at hlocked
  -- The shorter walk succeeds at the end of its text; the longer one is at the edge then.
  cases hlocked with
  | ok h => exact absurd hv (by rw [h.alike.finish hne]; exact nofun)
  | deepFirst hdeep =>
    obtain ⟨position, u, hdeep⟩ := hdeep
    cases hdeep
  | deepSecond hdeep => exact .inl hdeep
  | parted _ hends =>
    obtain ⟨u, hparted, hends⟩ := hends
    exact .inr ⟨u, ⟨hparted.cross.2.2, hparted.stacked⟩, hends⟩

/-- At the edge the walk stands on the token that comes after the text, and goes on to the text after
that. -/
theorem Edge.next {front next more : List Char} {shift : Nat} {base : List Nat} {u : Walk (List Nat)}
    {kind : TokenKind} {word : String} {text : List Char}
    (h : Edge text (front ++ (next ++ more)) shift starts base u) (hspells : Spells front kind word)
    (hmore : Follows more) (hopen : Cursor.open? next = .ok c)
    (hc : more ≠ [] → c.current.isFinish = false) :
    u.cursor.current.kind = kind ∧ u.cursor.current.text = word ∧ ∃ d, u.cursor.next = .ok d ∧
      Alike next more (Text.byteSize text + shift + Text.byteSize front) c d := by
  obtain ⟨size, previous, hread⟩ := h.cursor
  exact hspells.read hmore hopen hc hread

/-- The text has an answer, which starts at `start` unless the walk was too deep. -/
def Locates (parsing : Parsing) (text : String) (start : Nat) : Prop :=
  ∃ r, Fragment.locate parsing text = .ok r ∧
    ((∃ position, r.stoppedBy = some ⟨.tooDeep, position⟩) ∨ r.start = start)

/-- The answer for a text of which the walk has settled. -/
theorem locates_of_settled (hopen : Cursor.open? text.toList = .ok c)
    (h : Settled start (walk parsing c)) : Locates parsing text start := by
  have hhead : ∀ {starts : List Nat}, starts.head? = some start → starts.headD 0 = start := by
    intro starts h
    rw [List.headD_eq_head?_getD, h]
    rfl
  rcases h with ⟨position, w, hdeep⟩ | ⟨w, hheld, ⟨_, hok, -⟩ | ⟨fault, hfault⟩⟩
  · exact ⟨_, locate_of_fault hopen hdeep, .inl ⟨position, rfl⟩⟩
  · exact ⟨_, locate_of_ok hopen hok, .inr (hhead hheld)⟩
  · exact ⟨_, locate_of_fault hopen hfault, .inr (hhead hheld)⟩

end TypeAhead.Fragment
