/-
  TypeAhead.Proofs.Fragment.Idempotence — A FRAGMENT STANDS BY ITSELF.

  The trailing fragment of a text starts with the operand that was innermost when
  the walk was over.  Where the fragment is a text of its own, its first token is
  the same, as no dot came before it, and the rule for whole expressions comes to
  that operand at once.  There the two walks are in step, so the operand is over
  with the fragment too, or fails in it too, and is still the innermost one.

      open_at               a text from one of its tokens on
      settled_of_opened     the operand by itself
      locate_idempotent     the fragment of a fragment
-/
import TypeAhead.Proofs.Fragment.Context
import TypeAhead.Proofs.Fragment.Origin

namespace TypeAhead

/-! ## §1. A text from one of its tokens on. -/

/-- A cursor is read where it stands in the text. -/
theorem Reaches.read {text : List Char} {past : List TokenKind} {c : Cursor}
    (h : Reaches text past c) : ∃ front rest, text = front ++ rest ∧
      Cursor.read (Text.byteSize text) past.head? (Text.byteSize front) rest = .ok c := by
  cases h with
  | first hopen => exact ⟨[], text, rfl, hopen⟩
  | @next past c d h hc hnext =>
    obtain ⟨hsize, hoffset, read, lexeme, hd⟩ := h.split
    refine ⟨read ++ lexeme, c.rest, hd.text_eq, ?_⟩
    have hfront : c.offset = Text.byteSize (read ++ lexeme) := by
      rw [hoffset, Token.stop, hd.start_eq, hd.lexeme_eq, Text.utf8ByteSize_ofList,
        Text.byteSize_append]
    rw [← hfront, ← hsize]
    exact (Cursor.next_of_not_finish hc).symm.trans hnext

namespace Fragment

open Walker

/-- **From one of its tokens on a text starts with the same token**, if no dot is before it. -/
theorem open_at {text : List Char} {past : List TokenKind} {c : Cursor} (h : Reaches text past c)
    (hpast : past.head? ≠ some .dot) : ∃ front rest first, text = front ++ rest ∧
      Text.byteSize front = c.current.start ∧ Cursor.open? rest = .ok first ∧
      first.current.start = 0 ∧ Alike rest [] c.current.start first c := by
  obtain ⟨front, rest, htext, hread⟩ := h.read
  obtain ⟨-, hoffset, htoken⟩ := Cursor.read_eq_ok hread
  -- The blanks before the token are split off.
  have hrest : rest.takeWhile Text.isBlank ++ rest.dropWhile Text.isBlank = rest :=
    List.takeWhile_append_dropWhile
  have hblank : ∀ e ∈ rest.takeWhile Text.isBlank, Text.isBlank e = true := Scan.mem_takeWhile
  have hstart := Scan.start_of_token htoken
  have hfront : Text.byteSize (front ++ rest.takeWhile Text.isBlank) = c.current.start := by
    rw [Text.byteSize_append, hstart]
  -- Without the blanks the token is read from its own start.
  have halone : Scan.token none (0 + c.current.start) (rest.dropWhile Text.isBlank) =
      .ok (c.current, c.rest) := by
    rw [Nat.zero_add, hstart, ← Scan.token_blank hblank, hrest, ← htoken]
    exact Scan.token_previous (by simp [hpast]) _ _
  -- Read at offset zero it is the same token, moved by its own start.
  rw [Scan.token_shift] at halone
  cases hfirst : Scan.token none 0 (rest.dropWhile Text.isBlank) with
  | error fault =>
    rw [hfirst] at halone
    cases halone
  | ok result =>
    obtain ⟨t, ahead⟩ := result
    rw [hfirst] at halone
    obtain ⟨htoken', hahead⟩ := Prod.mk.inj (Except.ok.inj halone)
    have hopen : Cursor.open? (rest.dropWhile Text.isBlank) =
        .ok ⟨Text.byteSize (rest.dropWhile Text.isBlank), t.stop, ahead, t⟩ := read_eq_of_token hfirst
    have hzero : t.start = 0 := by
      have : t.start + c.current.start = c.current.start := congrArg Token.start htoken'
      omega
    refine ⟨_, _, _, by rw [List.append_assoc, hrest, htext], hfront, hopen, hzero, ?_⟩
    have hkind : t.kind = c.current.kind := by
      rw [← htoken']
      rfl
    have htext' : t.text = c.current.text := by
      rw [← htoken']
      rfl
    refine ⟨⟨[], .of_reaches (.first hopen)⟩, hkind.symm, htext'.symm, ?_, ?_, ?_,
      fun h => absurd rfl h⟩
    · show c.current.start = t.start + c.current.start
      omega
    · show c.offset = t.stop + c.current.start
      rw [hoffset, Token.stop, Token.stop, htext']
      omega
    · rw [List.append_nil, hahead]

/-! ## §2. The operand by itself. -/

variable {parsing : Parsing} {text : List Char} {held : List Nat}

/-- The operand that is open at the top of `held` is over with the text, or has failed there. -/
def Done (held : List Nat) (o : Located) : Prop :=
  ∃ x : Walk (List Nat), x.held = held ∧ ((o = .ok () x ∧ x.cursor.current.isFinish = true) ∨
    ∃ fault : Fault, o = .error (.fault fault) x ∧ fault.cause ≠ .tooDeep)

/-- **A walk in step with an operand that is done is settled.**  The two agree on what they have
opened themselves, and that is one operand. -/
theorem settled_of_done {rest : List Char} {shift start : Nat} {base : List Nat}
    {L : Unit → Walk (List Nat) → Located → Prop} {o q : Located}
    (h : (within rest [] shift base follows_nil).Locked L o q) (hq : Done ((start + shift) :: base) q) :
    Settled start o := by
  obtain ⟨x, hheld, hend⟩ := hq
  -- One operand is open above the base, so the two stacks have the same start on top.
  have hhead : ∀ {w : Walk (List Nat)},
      (within rest [] shift base follows_nil).Stacked w.held x.held → w.held.head? = some start := by
    rintro w ⟨top, htop, hplaces⟩
    rw [hheld] at htop
    have htop : [start + shift] = top := List.append_cancel_right htop
    subst htop
    generalize w.held = starts at hplaces
    cases hplaces with
    | @cons a _ _ _ hplace hnil =>
      cases hnil
      have hplace : start + shift = a + shift := hplace
      rw [List.head?_cons, Nat.add_right_cancel hplace]
  -- The walk of the fragment does what that of the text does, unless one of them is too deep.
  cases h with
  | @ok _ w v h =>
    obtain ⟨hok, hfinish⟩ | ⟨_, herror, -⟩ := hend
    · cases hok
      refine .inr ⟨w, hhead h.stacked, .inl ⟨_, rfl, ?_⟩⟩
      rw [Token.isFinish, ← h.alike.kind_eq]
      exact hfinish
    · cases herror
  | @error failure failure' w v hstacked hf =>
    obtain ⟨hok, -⟩ | ⟨fault, herror, -⟩ := hend
    · cases hok
    · cases herror
      cases failure with
      | fault fault => exact .inr ⟨w, hhead hstacked, .inr ⟨fault, rfl⟩⟩
      | _ => exact hf.elim
  | deepFirst hdeep => exact .inl hdeep
  -- The walk of the text is known not to be too deep.
  | deepSecond hdeep =>
    obtain ⟨position, u, rfl⟩ := hdeep
    obtain ⟨hok, -⟩ | ⟨fault, herror, hcause⟩ := hend
    · cases hok
    · cases herror
      exact absurd rfl hcause
  | failed hends => exact absurd rfl hends
  | parted hends => exact absurd rfl hends

namespace Rule

/-- What holds of the rule for operators before an operand, and is passed on by frames, holds of the
rule for whole expressions. -/
theorem of_unary {V : Located → Prop} {c : Cursor} (hdeep : ∀ o, o.TooDeep → V o)
    (hframe : ∀ {call rule sub test after o}, Frame call rule sub test after → V o → V (after o))
    (hunary : ∀ budget v, v.cursor = c → v.held = [] → V ((run parsing budget unary).run v))
    (budget : Nat) {rule : Rule} {w : Walk (List Nat)} (hrule : rule.first?.isSome = true)
    (hoperand : rule ≠ operand) (hw : w.cursor = c) (hheld : w.held = []) : V ((run parsing budget rule).run w) := by
  by_cases hunary' : rule = unary
  · subst hunary'
    exact hunary budget w hw hheld
  -- Down from rule to rule; each frame keeps `V`, and so does being too deep.
  induction budget generalizing rule w with
  | zero => exact hdeep _ ⟨_, w, rfl⟩
  | succ budget ih =>
    obtain ⟨sub, hsub⟩ := Option.isSome_iff_exists.1 hrule
    rcases run_first parsing w hsub budget fun h => absurd h hunary' with
      htooDeep | ⟨test, after, v, hframe', hrun, hv, hvheld, -⟩
    · exact hdeep _ htooDeep
    · rw [hrun]
      refine hframe hframe' ?_
      rw [if_neg hoperand] at hvheld
      by_cases hsub' : sub = unary
      · subst hsub'
        exact hunary budget v (hv.trans hw) (hvheld.trans hheld)
      · have hnext : sub.first?.isSome = true ∧ sub ≠ operand := by
          cases rule <;> cases hsub <;> simp [first?] at hunary' hoperand ⊢
        exact ih hnext.1 hnext.2 (hv.trans hw) (hvheld.trans hheld) hsub'

end Rule

/-- **An operand that is done settles the same operand by itself.** -/
theorem settled_operand {rest : List Char} {d : Cursor} {u : Walk (List Nat)} {budget : Nat}
    (halike : Alike rest [] u.cursor.current.start d u.cursor)
    (ho : Done (u.cursor.current.start :: u.held) ((Rule.run parsing budget .operand).run u)) (k : Nat)
    {v : Walk (List Nat)} (hv : v.cursor = d) (hheld : v.held = []) :
    Settled 0 ((Rule.run parsing k .operand).run v) := by
  have hpaired : (within rest [] u.cursor.current.start u.held follows_nil).Paired v u :=
    ⟨hv ▸ halike, [], rfl, by rw [hheld]; exact .nil⟩
  have hlocked := (Rule.inStep_run _ parsing k budget).enter (r := .operand) hpaired (by decide)
  exact settled_of_done hlocked (by rw [Nat.zero_add]; exact ho)

/-- A minus before a number is read over, and the number is an operand with it. -/
theorem run_unary_of_minus (parsing : Parsing) (k : Nat) {v : Walk (List Nat)} {c : Cursor}
    (hminus : v.cursor.current.kind = .minus) (hnext : v.cursor.next = .ok c)
    (hnumber : c.current.kind.isNumber = true) :
    ((Rule.run parsing (k + 1) .unary).run v).TooDeep ∨
      (Rule.run parsing (k + 1) .unary).run v = ((Rule.run parsing k .operand).run
        { v.deeper with cursor := { c with current := c.current.negated v.cursor.current } }).leave := by
  refine (run_nested _ v).imp id fun ⟨hrun, _⟩ => hrun.trans ?_
  -- The minus is a sign, and the number behind it takes it.
  have hsign : Rule.isSign v.cursor = true := by simp [Rule.isSign, Cursor.isAny, hminus]
  show ((if Rule.isSign v.cursor then do
      let operator ← current
      advance
      Rule.operated (Rule.run parsing k) operator
    else Rule.run parsing k .operand : Locator Unit).run v.deeper).leave = _
  rw [hsign, if_pos rfl]
  show ((advance.run v.deeper).andThen fun _ =>
    Rule.operated (Rule.run parsing k) v.cursor.current).leave = _
  rw [run_advance (w := v.deeper) hnext]
  show ((if v.cursor.current.kind = .minus && c.current.kind.isNumber then do
      replace (c.current.negated v.cursor.current)
      Rule.run parsing k .operand
    else Rule.run parsing k .unary : Locator Unit).run { v.deeper with cursor := c }).leave = _
  rw [hminus, hnumber]
  rfl

/-- **An operand that is done settles the text from its first token on**, as the rule for operators
before an operand comes to it. -/
theorem settled_unary {budget : Nat} {u : Walk (List Nat)} (hbegins : Begins text u.cursor)
    (ho : Done (u.cursor.current.start :: u.held) ((Rule.run parsing budget .operand).run u)) :
    ∃ front rest first, text = front ++ rest ∧ Text.byteSize front = u.cursor.current.start ∧
      Cursor.open? rest = .ok first ∧ ∀ k v, v.cursor = first → v.held = [] →
        Settled 0 ((Rule.run parsing k .unary).run v) := by
  generalize hc : u.cursor = c at hbegins
  -- The operand of the text begins with its own token, or with a minus that a number has taken.
  cases hbegins with
  | plain h hpast hsign =>
    obtain ⟨front, rest, first, htext, hfront, hopen, -, halike⟩ := open_at h hpast
    refine ⟨front, rest, first, htext, hfront, hopen, fun k v hv hheld => ?_⟩
    cases k with
    | zero => exact .inl ⟨_, v, rfl⟩
    | succ k =>
      have hfirst : Rule.isSign first = false := by
        rw [← hsign, Rule.isSign, Rule.isSign, Cursor.isAny, Cursor.isAny, Cursor.isWord,
          Cursor.isWord, halike.kind_eq, halike.text_eq]
      -- A token that is no sign leads to the operand at once.
      rcases Rule.run_first parsing v (show Rule.first? .unary = some .operand from rfl) k
          fun _ => hv ▸ hfirst with hdeep | ⟨test, after, t, hframe, hrun, ht, htheld, -⟩
      · exact .inl hdeep
      · rw [hrun]
        exact hframe.settled (settled_operand (hc ▸ halike) ho k (ht.trans hv) (htheld.trans hheld))
  -- The text starts with the minus then, and the number takes that in both walks.
  | @negated past m c h hpast hminus hnext hnumber =>
    obtain ⟨front, rest, first, htext, hfront, hopen, -, halike⟩ := open_at h hpast
    refine ⟨front, rest, first, htext, hfront, hopen, fun k v hv hheld => ?_⟩
    cases k with
    | zero => exact .inl ⟨_, v, rfl⟩
    | succ k =>
      cases hahead : first.next with
      | error fault => cases hnext.symm.trans (halike.next_error hahead)
      | ok d =>
        obtain ⟨c', hc', halike' | ⟨hne, -⟩⟩ := halike.next follows_nil hahead
        · cases hnext.symm.trans hc'
          have hnegated : Alike rest [] m.current.start
              { d with current := d.current.negated first.current }
              { c with current := c.current.negated m.current } :=
            (within rest [] m.current.start u.held follows_nil).replace halike' rfl
              (Nat.le_of_lt ((Stands.of_reaches (.first hopen)).next
                (by simp [Token.isFinish, ← halike.kind_eq, hminus]) hahead).2)
              halike'.kind_eq (congrArg ("-" ++ ·) halike'.text_eq) halike.start_eq
          rcases run_unary_of_minus parsing k (v := v)
            (by rw [hv, ← halike.kind_eq, hminus]) (hv ▸ hahead)
            (by rw [← halike'.kind_eq, hnumber]) with hdeep | hrun
          · exact .inl hdeep
          · rw [hrun]
            have hframe : Rule.Frame (Rule.run parsing k) .unary .operand _ _ := .unary (.inr rfl)
            refine hframe.settled ?_
            exact settled_operand (d := { d with current := d.current.negated first.current })
              (by rw [hc]; exact hnegated) ho k (by rw [hv]) hheld
        · exact absurd rfl hne

/-- **An operand of a text that is done settles the text from its start on.** -/
theorem settled_of_opened {o : Located} (h : OpenedBy parsing text held o) (ho : Done held o) :
    ∃ front rest first, text = front ++ rest ∧ held.head? = some (Text.byteSize front) ∧
      Cursor.open? rest = .ok first ∧ Settled 0 (walk parsing first) := by
  obtain ⟨budget, u, hbegins, rfl, rfl⟩ := h
  obtain ⟨front, rest, first, htext, hfront, hopen, hunary⟩ := settled_unary hbegins ho
  refine ⟨front, rest, first, htext, by rw [hfront]; rfl, hopen, ?_⟩
  exact Rule.of_unary (fun _ h => .inl h) (fun hframe h => hframe.settled h) hunary _ rfl nofun rfl rfl

/-! ## §3. The fragment of a fragment. -/

/-- From where an operand that is done starts, the text locates its own start. -/
theorem locate_of_opened {text : String} {stoppedBy : Option Fault} {o : Located}
    (h : OpenedBy parsing text.toList held o) (ho : Done held o) :
    Locates parsing (ofOpen text.toList held stoppedBy).text 0 := by
  obtain ⟨front, rest, first, htext, hhead, hopen, hsettled⟩ := settled_of_opened h ho
  obtain ⟨starts, rfl⟩ := List.head?_eq_some_iff.1 hhead
  have hrest : (ofOpen text.toList (Text.byteSize front :: starts) stoppedBy).text =
      String.ofList rest := by
    show String.ofList ((Text.dropBytes? (Text.byteSize front) text.toList).getD []) = _
    rw [htext, Text.dropBytes?_append]
    rfl
  rw [hrest]
  exact locates_of_settled (by simpa using hopen) hsettled

/-- **The fragment of a fragment is that fragment.**  Where locating a text was not stopped for being
too deep, its fragment has a fragment too, which is all of it unless it is too deep by itself. -/
theorem locate_idempotent (parsing : Parsing) {text : String} {r : Fragment}
    (h : locate parsing text = .ok r) (hdeep : ∀ position, r.stoppedBy ≠ some ⟨.tooDeep, position⟩) :
    ∃ r', locate parsing r.text = .ok r' ∧
      ((∃ position, r'.stoppedBy = some ⟨.tooDeep, position⟩) ∨ r'.start = 0 ∧ r'.text = r.text) := by
  have hlocates : Locates parsing r.text 0 := by
    -- With nothing open the fragment is the text, which has been located already.
    have hnil : ∀ {stoppedBy}, r = ofOpen text.toList [] stoppedBy → Locates parsing r.text 0 := by
      rintro stoppedBy rfl
      rw [text_of_nil]
      exact ⟨_, h, .inr rfl⟩
    cases hopen : Cursor.open? text.toList with
    | error fault => exact hnil (Except.ok.inj (h.symm.trans (locate_of_unopened hopen)))
    | ok c =>
      -- Either nothing is left open, and the fragment is the text, or it starts at an operand of
      -- the text.
      have horigin := origin_of_walk parsing hopen
      cases hwalk : walk parsing c with
      | ok _ w =>
        rw [hwalk] at horigin
        cases h.symm.trans (locate_of_ok hopen hwalk)
        rcases horigin with hheld | ⟨x, hopened, hfinish, hx⟩
        · exact hnil (by rw [hheld])
        · exact locate_of_opened hopened ⟨x, hx, .inl ⟨rfl, hfinish⟩⟩
      | error failure w =>
        rw [hwalk] at horigin
        obtain ⟨fault, rfl, rfl⟩ := eq_of_locate_of_error h hopen hwalk
        -- The hypothesis rules out the one fault that the walk of the fragment need not share.
        have hcause : fault.cause ≠ .tooDeep := by
          obtain ⟨cause, position⟩ := fault
          rintro rfl
          exact hdeep position rfl
        rcases horigin with (hheld | ⟨x, hopened, hfinish, hx⟩) | ⟨x, hopened, hx⟩
        · exact hnil (by rw [hheld])
        · exact locate_of_opened hopened ⟨x, hx, .inl ⟨rfl, hfinish⟩⟩
        · exact locate_of_opened hopened ⟨x, hx, .inr ⟨fault, rfl, hcause⟩⟩
  obtain ⟨r', hr', hstart⟩ := hlocates
  refine ⟨r', hr', hstart.imp id fun hstart => ⟨hstart, ?_⟩⟩
  exact text_of_locate (show locate parsing ("" ++ r.text) = .ok r' by simpa using hr') hstart

/-- A number with its minus, in an argument list that is not closed. -/
theorem locate_idempotent_of_negated : ∃ r, locate {} "f(-1" = .ok r ∧ r.text = "-1" ∧
    (∀ position, r.stoppedBy ≠ some ⟨.tooDeep, position⟩) ∧ ∃ r', locate {} r.text = .ok r' ∧
      ((∃ position, r'.stoppedBy = some ⟨.tooDeep, position⟩) ∨ r'.start = 0 ∧ r'.text = r.text) := by
  have h : locate {} "f(-1" = .ok ⟨2, "-1", some ⟨.closeParenOrCommaExpected, 4⟩⟩ := rfl
  exact ⟨_, h, rfl, nofun, locate_idempotent {} h nofun⟩

end Fragment

end TypeAhead
