/-
  TypeAhead.Proofs.Fragment.FirstOperand — TEXTS OF WHICH THE FIRST OPERAND STAYS OPEN.

  If nothing but an operand at the start of a text is open at its end, then it is the
  first operand of the text, and it was never left: what is opened after it was left
  starts later.

      start_lt_of_operand    an operand takes up some of the text
      Completes.staysOpen    the first operand ends where the text does
-/
import TypeAhead.Proofs.Fragment.Settled

namespace TypeAhead.Fragment

open Walker

namespace Rule

variable {parsing : Parsing} {text : List Char} {low budget : Nat} {rule sub : Rule}
  {test : Cursor → Bool} {after : Located → Located} {w v : Walk (List Nat)} {c : Cursor}

/-- **An operand takes up some of the text.** -/
theorem start_lt_of_operand (h : Entry text low operand w)
    (hrun : (run parsing (budget + 1) operand).run w = .ok () v) :
    w.cursor.current.start < v.cursor.current.start := by
  have hcall : Orderly text low (run parsing budget) := sound_run parsing budget
  have hentry : Entry text low primary (opened w) := entry_primary_of_opened h
  have hrun : (do
      run parsing budget primary
      attached (run parsing budget)
      closeOperand : Locator Unit).run (opened w) = .ok () v := hrun
  obtain ⟨_, u, hprimary, hrun⟩ := eq_ok_of_bind hrun
  obtain ⟨_, t, hattached, hrun⟩ := eq_ok_of_bind hrun
  have hu := (hcall primary _ hentry).ok hprimary
  have hrestored := (restores_run parsing budget primary (opened w)).ok hprimary
  have ht := (sound_attached hcall hu).ok hattached
  have hrestored' := hrestored.trans ((restores_attached (restores_run parsing budget) u).ok hattached)
  cases hrun
  -- The operand is still open when all that is attached to it was read.
  exact ht.past_open _ (hrestored'.open_below.subset List.mem_cons_self)

/-- What a rule does after its first call keeps the order. -/
theorem Frame.clear (h : Frame (run parsing budget) rule sub test after)
    (hfirst : rule.first? = some sub) (hrule : rule ≠ operand) (hw : Clear text low Leaves w)
    (hrun : after (.ok () w) = .ok () v) : Clear text low Leaves v := by
  have hcall : Orderly text low (run parsing budget) := sound_run parsing budget
  -- Only those frames matter that come after the first call of a rule.
  cases h with
  | question =>
    have hchoice := sound_choice hcall hw
    obtain ⟨u, hu, rfl⟩ := Walk.Outcome.eq_ok_of_leave hrun
    have hu := hchoice.ok hu
    exact hu.at_depth (Nat.le_trans (Nat.sub_le _ 1) hu.depth)
  | alternative => cases hfirst
  | coalesce => exact (sound_fallback hcall hw).ok hrun
  | arrow => exact (sound_arrow hcall hw).ok hrun
  | operators k hoperators => exact (sound_operators hcall hoperators k hw).ok hrun
  | container k => exact (sound_containerLoop hcall k hw).ok hrun
  | unary =>
    cases hrun
    exact hw.at_depth (Nat.le_trans (Nat.sub_le _ 1) hw.depth)
  | attached => exact absurd rfl hrule
  | chain => cases hfirst
  | last hends => cases rule <;> cases hfirst <;> cases hends

/-- What comes of a rule that an expression may start with. -/
theorem clear_of_first (hrule : rule.first?.isSome = true) (hw : Fresh text low w)
    (hrun : (run parsing budget rule).run w = .ok () v) : Clear text low Leaves v := by
  have hentry : Entry text low rule w := by
    cases rule with
    | operand => exact hw.entry_operand
    | conditional | coalescing | projection | disjunction | conjunction | containment | bitwise
    | comparison | shift | sum | product | unary => exact hw
    | _ => cases hrule
  have hexit := (sound_run parsing budget rule w hentry).ok hrun
  cases rule with
  | argument | arguments => cases hrule
  | _ => exact hexit

/-- The operand at `c` ends where the text does, and it is the only one that is open there. -/
def StaysOpen (parsing : Parsing) (c : Cursor) (start : Nat) : Prop :=
  ∃ budget w v, w.cursor = c ∧ w.held = [] ∧ (run parsing budget operand).run w = .ok () v ∧
    v.cursor.current.isFinish = true ∧ v.held = [start]

/-- If nothing but an operand at the start of the text is open after a rule, it is the first operand of
the rule, and it was not left.  The walk is where the text starts and nothing is open yet. -/
theorem operand_of_open (hopen : Cursor.open? text = .ok c) (hsign : isSign c = false)
    {start : Nat} (hstart : start ≤ c.current.start) (hrule : rule.first?.isSome = true)
    (hw : w.cursor = c) (hheld : w.held = []) (hdepth : w.depth ≤ Limits.nesting)
    (hrun : (run parsing budget rule).run w = .ok () v) :
    c.current.start < v.cursor.current.start ∧
      (v.cursor.current.isFinish = true → v.held = [start] → StaysOpen parsing c start) := by
  -- By induction on the budget, from a rule to the one that it starts with, down to the operand.
  induction budget generalizing rule w v with
  | zero => cases hrun
  | succ budget ih =>
    by_cases hoperand : rule = operand
    · subst hoperand
      have hfresh : Fresh text 0 w := fresh_start (hw ▸ hopen) hheld hdepth
      have hlt := start_lt_of_operand hfresh.entry_operand hrun
      exact ⟨hw ▸ hlt, fun hv hstack => ⟨budget + 1, w, v, hw, hheld, hrun, hv, hstack⟩⟩
    obtain ⟨sub, hsub⟩ := Option.isSome_iff_exists.1 hrule
    rcases run_first parsing w hsub budget fun _ => hw ▸ hsign with
      ⟨_, _, hdeep⟩ | ⟨test, after, u, hframe, hafter, hu, huheld, hudepth⟩
    -- A walk that is too deep does not succeed.
    · cases hrun.symm.trans hdeep
    rw [if_neg hoperand] at huheld
    have hnext := isSome_first?_of_first? hsub hoperand
    rw [hafter] at hrun
    cases ho : (run parsing budget sub).run u with
    -- A rule whose first call fails fails.
    | error failure t =>
      obtain ⟨_, herror, -⟩ := hframe.error (w := t) failure
      rw [ho, herror] at hrun
      cases hrun
    | ok _ t =>
      obtain ⟨hlt, hthen⟩ := ih hnext (hu.trans hw) (huheld.trans hheld) (hudepth hdepth) ho
      rw [ho] at hrun
      by_cases hfinish : t.cursor.current.isFinish = true
      · -- The text is over with the first call, and what comes after it does nothing.
        rcases hframe.pass (hframe.test_finish hfinish) with ⟨_, _, hdeep⟩ | ⟨t', ht', hcursor, hopened⟩
        · cases hrun.symm.trans hdeep
        · cases hrun.symm.trans ht'
          rw [hcursor, hopened (.inr hfinish)]
          exact ⟨hlt, hthen⟩
      · -- The first operand is closed; what is opened from here on starts later.
        have hclosed := ((restores_run parsing budget sub u).ok ho).closed (by simpa using hfinish)
        have hfresh : Fresh text 0 u :=
          fresh_start (hu ▸ hw ▸ hopen) (huheld.trans hheld) (hudepth hdepth)
        have ht := clear_of_first hnext hfresh ho
        have hnone : ∀ start ∈ t.held, t.cursor.current.start ≤ start := by
          rw [hclosed, huheld, hheld]
          exact fun _ hs => absurd hs List.not_mem_nil
        -- So from here on nothing is open that starts before the token.
        have hlow : Clear text t.cursor.current.start Leaves t :=
          ⟨⟨ht.placed, ht.literal, ht.opened, ht.ordered, ht.below, ht.depth, Nat.le_refl _, hnone⟩,
            ht.past_open, ht.reached⟩
        have hv := hframe.clear hsub hoperand hlow hrun
        refine ⟨Nat.lt_of_lt_of_le hlt hv.low_le, fun _ hstack => ?_⟩
        have hle := hv.low_le_opened start (hstack ▸ List.mem_cons_self)
        omega

end Rule

/-- **The first operand of a text that is open at its end was not left.** -/
theorem Completes.staysOpen {parsing : Parsing} {text : String} {start : Nat} {c : Cursor}
    (h : Completes parsing text [start]) (hopen : Cursor.open? text.toList = .ok c)
    (hsign : Rule.isSign c = false) (hstart : start ≤ c.current.start) :
    Rule.StaysOpen parsing c start := by
  obtain ⟨c', v, hopen', hwalk, hfinish, hheld⟩ := h
  cases hopen.symm.trans hopen'
  exact (Rule.operand_of_open hopen hsign hstart rfl rfl rfl (Nat.zero_le _)
    hwalk).2 hfinish hheld

end TypeAhead.Fragment
