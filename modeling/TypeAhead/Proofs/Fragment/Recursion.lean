/-
  TypeAhead.Proofs.Fragment.Recursion — HOW DEEP THE LOCATOR RECURS.

  The depth of nested rules is limited, but not every cycle of calls passes through
  a nested rule: a chain of names calls a member for a name that follows it, and a
  member calls the rest of its chain.  A budget for calls that is linear in the size
  of the text is enough for every text, and any larger one gives the same answer.
  A budget that does not grow with the text is not: chains of names one after the
  other take two calls each, are read to their end and stopped by nothing.

      unroll_eq_walk           a linear budget is not used up
      recursion_unbounded      no constant one is
-/
import TypeAhead.Proofs.Fragment.Calls
import TypeAhead.Proofs.Fragment.Context
import TypeAhead.Proofs.Fragment.Words

namespace TypeAhead

/-! ## §1. A text and itself. -/

/-- No more tokens are ahead than the text has bytes, but for the one on which the cursor stands. -/
theorem Reaches.ahead_le_size {text : List Char} {past : List TokenKind} {c : Cursor} (h : Reaches text past c) :
    c.ahead ≤ c.size + 1 := by
  obtain ⟨hsize, -, read, lexeme, hd⟩ := h.split
  have hle : c.rest.length ≤ c.size := by
    rw [hsize, hd.text_eq, Text.byteSize_append]
    exact Nat.le_trans (Text.length_le_byteSize c.rest) (Nat.le_add_left _ _)
  unfold Cursor.ahead
  split <;> omega

/-- The same on a token that was put in place of the one that was read. -/
theorem Stands.ahead_le_size {text : List Char} {past : List TokenKind} {c : Cursor} (h : Stands text past c) :
    c.ahead ≤ c.size + 1 := by
  obtain ⟨read, hread, hsize, -, hrest, hkind, -⟩ := h
  have hahead : c.ahead = read.ahead := by rw [Cursor.ahead, Cursor.ahead, Token.isFinish, hkind, hrest]; rfl
  rw [hahead, hsize]
  exact hread.ahead_le_size

/-- There are no more tokens ahead than characters, and the end. -/
theorem Cursor.ahead_le_size {text : List Char} {c : Cursor} (h : open? text = .ok c) : c.ahead ≤ c.size + 1 :=
  (Reaches.first h).ahead_le_size

/-- A text is a twin of itself. -/
def Twins.self : Twins where
  alike n c d := d = c ∧ c.ahead ≤ n ∧ n ≤ c.size + 1
  place := Eq
  kind_eq h := by rw [h.1]
  text_eq h := by rw [h.1]
  start_eq h := by rw [h.1]
  le_size h := ⟨h.2.2, h.1 ▸ h.2.2⟩
  next {n c d} h hc := by
    obtain ⟨rfl, hahead, hsize⟩ := h
    cases hnext : d.next with
    | ok d' =>
      have hlt := Cursor.ahead_next hc hnext
      have hsize' : d'.size = d.size := by
        rw [Cursor.next_of_not_finish hc] at hnext
        exact (Cursor.read_eq_ok hnext).1
      exact .ok ⟨d'.ahead, Nat.lt_of_lt_of_le hlt hahead, rfl, Nat.le_refl _, by omega⟩
    | error fault => exact .error rfl rfl
  replace {n c d s t} h hkind hkind' htext hplace := by
    obtain ⟨rfl, hahead, hsize⟩ := h
    have hst : t = s := by
      cases s
      cases t
      simp_all
    have hfinish : s.isFinish = d.current.isFinish := by rw [Token.isFinish, Token.isFinish, hkind]
    refine ⟨by rw [hst], ?_, hsize⟩
    show (if s.isFinish then 0 else d.rest.length + 1) ≤ n
    rw [hfinish]
    exact hahead

/-- Twin walks of the same text are the same. -/
theorem Twins.Same.eq_of_self {α : Type} {depth : Nat} {Q : α → α → Nat → Prop}
    {o q : Walk.Outcome (List Nat) α} (hQ : ∀ {a b n}, Q a b n → a = b)
    (h : Twins.self.Same (Fragment.Rule.Stacks Twins.self) depth Q o q) : o = q := by
  have hwalk : ∀ {n} {w v : Walk (List Nat)},
      Twins.self.Paired (Fragment.Rule.Stacks Twins.self) depth n w v → w = v := by
    rintro n ⟨c, d, held⟩ ⟨c', d', held'⟩ ⟨halike, hdepth, hheld⟩
    have hheld : held = held' := List.forall₂_eq_eq_eq ▸ hheld
    have hc : c' = c := halike.1
    have hd : d = d' := hdepth.1.trans hdepth.2.symm
    rw [hheld, hc, hd]
  -- A text corresponds to itself in one way only, so that what is alike is the same.
  cases h with
  | ok h hab => rw [hwalk h, hQ hab]
  | @error failure failure' _ _ _ h hf =>
    rw [hwalk h]
    cases failure <;> cases failure' <;> first | exact hf.elim | skip
    · rename_i f g
      cases f
      cases g
      cases hf.1
      cases hf.2
      rfl
    · cases hf
      rfl

namespace Fragment

open Walker

/-- **A budget that is linear in the size of the text is not used up**: the walk is the same whatever the
calls beyond it come to. -/
theorem unroll_eq_walk (parsing : Parsing) (base : Rule → Locator Unit) {text : List Char} {c : Cursor} {k : Nat}
    (hopen : Cursor.open? text = .ok c) (hk : Rule.budget c.size ≤ k) :
    (unroll (Rule.body parsing) base k .conditional).run ⟨c, 0, []⟩ = walk parsing c := by
  have hpaired : Twins.self.Paired (Rule.Stacks Twins.self) 0 c.ahead ⟨c, 0, []⟩ ⟨c, 0, []⟩ :=
    ⟨⟨rfl, Nat.le_refl _, Cursor.ahead_le_size hopen⟩, ⟨rfl, rfl⟩, .nil⟩
  have hcalls := Rule.calls_le_budget (Cursor.ahead_le_size hopen)
  have hsame := (Rule.same_unroll Twins.self parsing base (Nat.le_refl _) hk).read (r := .conditional) nofun
    hcalls hpaired
  exact (hsame.eq_of_self fun h => h.1).symm

/-- With any larger budget the walk is the same. -/
theorem run_eq_walk (parsing : Parsing) {text : List Char} {c : Cursor} {k : Nat}
    (hopen : Cursor.open? text = .ok c) (hk : Rule.budget c.size ≤ k) :
    (Rule.run parsing k .conditional).run ⟨c, 0, []⟩ = walk parsing c :=
  Rule.run_eq_unroll parsing k ▸ unroll_eq_walk parsing _ hopen hk

/-! ## §2. Chains of names, one after the other. -/

/-- So many chains of two names. -/
def chains : Nat → List Char
  | 0 => []
  | n + 1 => "a . a ".toList ++ chains n

theorem plainWord_a : PlainWord 'a' [] :=
  ⟨rfl, fun _ => rfl, by decide, rfl, nofun, by decide, rfl⟩

/-- The name is read up to the blank. -/
theorem token_name (previous : Option TokenKind) (start : Nat) (rest : List Char) :
    Scan.token previous start ("a ".toList ++ rest) = .ok (⟨.identifier, "a", start⟩, ' ' :: rest) :=
  plainWord_a.token_blank previous start rest

/-- A name after a blank. -/
theorem token_nextName (previous : Option TokenKind) (start : Nat) (rest : List Char) :
    Scan.token previous start (" a ".toList ++ rest) =
      .ok (⟨.identifier, "a", start + 1⟩, ' ' :: rest) := by
  have hblanks : ∀ c ∈ [' '], Text.isBlank c = true := List.forall_mem_singleton.2 rfl
  have hblank := Scan.token_blank hblanks previous start ("a ".toList ++ rest)
  exact hblank.trans (token_name previous (start + 1) rest)

/-- The first name of a chain, with `n` other chains ahead. -/
def atName (size start n : Nat) : Cursor :=
  ⟨size, start + 1, " . a ".toList ++ chains n, ⟨.identifier, "a", start⟩⟩

/-- The dot of a chain. -/
def atDot (size start n : Nat) : Cursor :=
  ⟨size, start + 3, " a ".toList ++ chains n, ⟨.dot, ".", start + 2⟩⟩

/-- Past a chain: the next one, or the end of the text. -/
def pastChain (size start : Nat) : Nat → Cursor
  | 0 => ⟨size, start + 6, [], .finish (start + 6)⟩
  | n + 1 => atName size (start + 6) n

/-- Behind the name stands the dot. -/
theorem next_atName (size start n : Nat) : (atName size start n).next = .ok (atDot size start n) := rfl

/-- Behind the dot stands the next name, and behind that the rest of the chains. -/
theorem next_atDot (size start n : Nat) : ∃ c, (atDot size start n).next = .ok c ∧
    c.isKind .identifier = true ∧ c.next = .ok (pastChain size start n) := by
  refine ⟨_, read_eq_of_token (token_nextName (some .dot) (start + 3) (chains n)), rfl, ?_⟩
  cases n with
  | zero => rfl
  | succ n => exact read_eq_of_token (token_nextName (some .identifier) (start + 5) _)

/-- Such a text starts on its first name. -/
theorem open_chains (n : Nat) :
    Cursor.open? (chains (n + 1)) = .ok (atName (Text.byteSize (chains (n + 1))) 0 n) :=
  read_eq_of_token (token_name none 0 (". a ".toList ++ chains n))

/-! ## §3. Walking along chains. -/

variable {parsing : Parsing} {budget size start depth : Nat} {held : List Nat}

/-- A member at a name goes on with the rest of the chain. -/
theorem run_member (n : Nat) :
    (Rule.run parsing (budget + 1) .member).run ⟨atName size start n, depth, held⟩ =
      ((Rule.run parsing budget .nameChain).run ⟨atDot size start n, depth, held⟩).andThen fun _ =>
        onlyIf (fun c => c.isKind .openParen) (Rule.run parsing budget .argumentList) := by
  show (advance >>= fun _ => Rule.afterName (Rule.run parsing budget)).run
    ⟨atName size start n, depth, held⟩ = _
  rw [run_bind, run_advance (next_atName size start n)]
  rfl

/-- The rest of a chain is read in one loop; a name after it is a member again. -/
theorem run_nameChain (n : Nat) :
    (Rule.run parsing (budget + 1) .nameChain).run ⟨atDot size start n, depth, held⟩ =
      (onlyIf (fun c => c.isKind .identifier) (Rule.run parsing budget .member)).run
        ⟨pastChain size start n, depth, held⟩ := by
  have hloop : (repeatWhile Rule.isJoint (do advance; Rule.linkedName) : Locator Unit).run
      ⟨atDot size start n, depth, held⟩ = .ok () ⟨pastChain size start n, depth, held⟩ := by
    obtain ⟨c, hdot, hname, hpast⟩ := next_atDot size start n
    rw [run_repeatWhile]
    refine Rule.run_loop_once _ rfl ?_ (by cases n <;> rfl)
    rw [run_bind, run_advance hdot]
    show (onlyIf (fun c => c.isKind .identifier) advance).run _ = _
    rw [run_onlyIf, if_pos hname]
    exact run_advance hpast
  show ((repeatWhile Rule.isJoint (do advance; Rule.linkedName) : Locator Unit).run
    ⟨atDot size start n, depth, held⟩).andThen _ = _
  rw [hloop]
  rfl

/-- **Every chain takes two calls**, which are under way until the last chain is read. -/
theorem tooDeep_member {n : Nat} (start : Nat) (h : budget < 2 * (n + 1)) :
    ((Rule.run parsing budget .member).run ⟨atName size start n, depth, held⟩).TooDeep := by
  induction n generalizing budget start with
  | zero =>
    match budget, h with
    | 0, _ => exact ⟨_, _, rfl⟩
    | 1, _ =>
      rw [run_member]
      exact Walk.Outcome.TooDeep.andThen ⟨_, _, rfl⟩ _
  | succ n ih =>
    match budget with
    | 0 => exact ⟨_, _, rfl⟩
    | 1 =>
      rw [run_member]
      exact Walk.Outcome.TooDeep.andThen ⟨_, _, rfl⟩ _
    | budget + 2 =>
      rw [run_member, run_nameChain]
      exact (ih (start + 6) (by omega)).andThen _

/-- Given enough calls, all chains are read. -/
theorem ok_member {n : Nat} (start budget : Nat) (h : 2 * (n + 1) ≤ budget) :
    ∃ c, c.current.isFinish = true ∧
      (Rule.run parsing budget .member).run ⟨atName size start n, depth, held⟩ =
        .ok () ⟨c, depth, held⟩ := by
  induction n generalizing budget start with
  | zero =>
    obtain ⟨budget, rfl⟩ := Nat.exists_eq_add_of_le' h
    refine ⟨pastChain size start 0, rfl, ?_⟩
    rw [run_member, run_nameChain]
    rfl
  | succ n ih =>
    obtain ⟨budget, rfl⟩ := Nat.exists_eq_add_of_le' (show 2 ≤ budget by omega)
    obtain ⟨c, hc, hok⟩ := ih (start + 6) budget (by omega)
    refine ⟨c, hc, ?_⟩
    rw [run_member, run_nameChain]
    show ((Rule.run parsing budget .member).run ⟨atName size (start + 6) n, depth, held⟩).andThen _ = _
    rw [hok]
    exact Rule.run_onlyIf_of_not (isKind_finish (by decide) hc)

/-! ## §4. Whole texts of chains. -/

/-- Below the limit, what is nested is walked one level deeper. -/
theorem run_nested_of_lt {x : Locator Unit} {w : Walk (List Nat)} (h : w.depth < Limits.nesting) :
    (nested x).run w = (x.run w.deeper).leave := by
  simp only [nested, if_neg (Nat.not_le_of_lt h), between]
  cases x.run w.deeper <;> rfl

/-- Operands with operators between them, of which the first one has been read to the end. -/
theorem ok_of_operators {rule sub : Rule} {test : Cursor → Bool} {w u : Walk (List Nat)}
    (h : rule.operators? = some (sub, test)) (hu : (Rule.run parsing budget sub).run w = .ok () u)
    (hfinish : u.cursor.current.isFinish = true) :
    (Rule.run parsing (budget + 1) rule).run w = .ok () u := by
  show (Rule.body parsing (Rule.run parsing budget) rule).run w = _
  rw [Rule.body_operators h, Rule.chain, run_bind, hu]
  exact Rule.run_repeatWhile_of_not _ ((Rule.operators?_test h).2 u.cursor hfinish)

/-- Where the first call of a rule has read the text to its end, the rule has nothing left to do. -/
theorem ok_of_first (parsing : Parsing) (budget : Nat) (w : Walk (List Nat)) {rule sub : Rule}
    (h : rule.first? = some sub) (hw : rule = .unary → Rule.isSign w.cursor = false)
    (hdepth : w.depth < Limits.nesting) :
    ∃ v, v.cursor = w.cursor ∧ v.depth ≤ w.depth + 1 ∧
      v.held = (if rule = .operand then w.cursor.current.start :: w.held else w.held) ∧
      ∀ {u : Walk (List Nat)}, (Rule.run parsing budget sub).run v = .ok () u →
        u.cursor.current.isFinish = true →
        ∃ u', (Rule.run parsing (budget + 1) rule).run w = .ok () u' ∧ Rule.SamePlace u u' := by
  -- What comes after the first call asks for a token, and the text has none.
  cases rule with
  | conditional =>
    cases h
    refine ⟨w.deeper, rfl, Nat.le_refl _, rfl, fun {u} hu hfinish => ⟨u.shallower, ?_, rfl, rfl⟩⟩
    show (nested _).run w = _
    rw [run_nested_of_lt hdepth, run_bind, hu]
    show ((Rule.choice (Rule.run parsing budget)).run u).leave = _
    rw [Rule.choice, Rule.run_onlyIf_of_not (isKind_finish (by decide) hfinish)]
    rfl
  | coalescing | projection =>
    cases h
    refine ⟨w, rfl, Nat.le_succ _, rfl, fun {u} hu hfinish => ⟨u, ?_, rfl, rfl⟩⟩
    show (Rule.run parsing budget _ >>= _).run w = _
    rw [run_bind, hu]
    exact Rule.run_onlyIf_of_not (isKind_finish (by decide) hfinish)
  | disjunction | conjunction | bitwise | comparison | shift | sum | product =>
    cases h
    refine ⟨w, rfl, Nat.le_succ _, rfl, fun {u} hu hfinish => ⟨u, ?_, rfl, rfl⟩⟩
    exact ok_of_operators rfl hu hfinish
  | containment =>
    cases h
    refine ⟨w, rfl, Nat.le_succ _, rfl, fun {u} hu hfinish => ⟨u, ?_, rfl, rfl⟩⟩
    show (Rule.run parsing budget .bitwise >>= _).run w = _
    rw [run_bind, hu]
    exact Rule.run_repeatWhile_of_not _ (Rule.startsContainment_finish hfinish)
  | unary =>
    cases h
    refine ⟨w.deeper, rfl, Nat.le_refl _, rfl, fun {u} hu _ => ⟨u.shallower, ?_, rfl, rfl⟩⟩
    show (nested _).run w = _
    rw [run_nested_of_lt hdepth]
    show ((if Rule.isSign w.cursor then _ else Rule.run parsing budget .operand : Locator Unit).run
      w.deeper).leave = _
    rw [hw rfl]
    exact congrArg Walk.Outcome.leave hu
  | operand =>
    cases h
    refine ⟨Rule.opened w, rfl, Nat.le_succ _, rfl, fun {u} hu hfinish => ⟨u, ?_, rfl, rfl⟩⟩
    show (Rule.run parsing budget .primary >>= _).run (Rule.opened w) = _
    rw [run_bind, hu]
    show ((Rule.attached (Rule.run parsing budget)).run u).andThen _ = _
    rw [Rule.attached, Rule.run_repeatWhile_of_not _ (Rule.isAttached_finish hfinish)]
    show (.ok () (Rule.closed u) : Located) = _
    rw [Rule.closed, if_pos hfinish]
  | _ => cases h

/-- The calls from a rule down to the operand by itself that is called first. -/
def Rule.toPrimary : Rule → Nat
  | conditional => 13
  | coalescing => 12
  | projection => 11
  | disjunction => 10
  | conjunction => 9
  | containment => 8
  | bitwise => 7
  | comparison => 6
  | shift => 5
  | sum => 4
  | product => 3
  | unary => 2
  | operand => 1
  | _ => 0

/-- An operand by itself that is read to the end of the text is all there is. -/
theorem ok_of_primary {c : Cursor} (hc : Rule.isSign c = false) {k : Nat}
    (hprimary : ∀ {budget : Nat} {w : Walk (List Nat)}, k ≤ budget → w.cursor = c →
      ∃ u, (Rule.run parsing budget .primary).run w = .ok () u ∧
        u.cursor.current.isFinish = true ∧ u.held = w.held)
    {n : Nat} {rule : Rule} (hrule : rule.toPrimary = n) (hfirst : rule = .primary ∨ n ≠ 0)
    {w : Walk (List Nat)} (hw : w.cursor = c) (hdepth : w.depth + n ≤ Limits.nesting)
    (hk : k + n ≤ budget) :
    ∃ u, (Rule.run parsing budget rule).run w = .ok () u ∧ u.cursor.current.isFinish = true ∧
      u.held = (if n = 0 then w.held else c.current.start :: w.held) := by
  -- By induction on the calls that lead down to the operand by itself.
  induction n generalizing rule budget w with
  | zero =>
    rw [hfirst.resolve_right (fun h => h rfl)]
    exact hprimary hk hw
  | succ n ih =>
    -- Each rule is one call further from the primary than the one that it starts with.
    obtain ⟨sub, hsub, hn, hprim⟩ : ∃ sub, rule.first? = some sub ∧ sub.toPrimary = n ∧
        (rule = .operand ↔ n = 0) ∧ (sub = .primary ∨ n ≠ 0) := by
      cases rule <;> cases hrule <;> exact ⟨_, rfl, rfl, by decide⟩
    obtain ⟨budget, rfl⟩ := Nat.exists_eq_add_of_le' (show 1 ≤ budget by omega)
    obtain ⟨v, hv, hvdepth, hvheld, hrun⟩ :=
      ok_of_first parsing budget w hsub (fun _ => hw ▸ hc) (by omega)
    obtain ⟨u, hu, hfinish, hheld⟩ :=
      ih hn hprim.2 (hv.trans hw) (by omega) (show k + n ≤ budget by omega)
    obtain ⟨u', hu', hcursor, hheld'⟩ := hrun hu hfinish
    refine ⟨u', hu', hcursor ▸ hfinish, hheld'.trans (hheld.trans ?_)⟩
    -- Only the operand opens anything on the way down.
    by_cases hoperand : rule = .operand
    · rw [if_pos (hprim.1.1 hoperand), if_neg (Nat.succ_ne_zero n), hvheld, if_pos hoperand, hw]
    · rw [if_neg (fun h => hoperand (hprim.1.2 h)), if_neg (Nat.succ_ne_zero n), hvheld,
        if_neg hoperand]

/-- An operand by itself for which the calls are too few leaves too few for all that calls it. -/
theorem tooDeep_of_primary {c : Cursor} (hc : Rule.isSign c = false) {k : Nat}
    (hprimary : ∀ {budget : Nat} {w : Walk (List Nat)}, budget < k → w.cursor = c →
      ((Rule.run parsing budget .primary).run w).TooDeep)
    {rule : Rule} (hrule : rule.first?.isSome = true) {w : Walk (List Nat)} (hw : w.cursor = c)
    (hk : budget < k) : ((Rule.run parsing budget rule).run w).TooDeep := by
  -- Down the first calls, until the primary is reached with too small a budget.
  induction budget generalizing rule w with
  | zero => exact ⟨_, w, rfl⟩
  | succ budget ih =>
    obtain ⟨sub, hsub⟩ := Option.isSome_iff_exists.1 hrule
    rcases Rule.run_first parsing w hsub budget fun _ => hw ▸ hc with
      htooDeep | ⟨test, after, v, hframe, hrun, hv, -, -⟩
    · exact htooDeep
    · rw [hrun]
      -- What is too deep further in is so further out.
      refine hframe.tooDeep ?_
      by_cases hprim : sub = .primary
      · rw [hprim]
        exact hprimary (Nat.lt_of_succ_lt hk) (hv.trans hw)
      · have hoperand : rule ≠ .operand := by
          rintro rfl
          cases hsub
          exact hprim rfl
        exact ih (Rule.isSome_first?_of_first? hsub hoperand) (hv.trans hw) (Nat.lt_of_succ_lt hk)

/-- The names of chains are no words of the grammar. -/
theorem isWord_atName (n : Nat) {word : String} (h : Text.sameWord "a" word = false) :
    (atName size start n).isWord word = false := h

/-- A name is no sign. -/
theorem isSign_atName (n : Nat) : Rule.isSign (atName size start n) = false := by
  rw [Rule.isSign, isWord_atName n (by decide)]
  rfl

/-- A name is an operand by itself. -/
theorem run_primary_atName (n : Nat) {w : Walk (List Nat)} (hw : w.cursor = atName size start n) :
    (Rule.run parsing (budget + 1) .primary).run w = (Rule.run parsing budget .member).run w := by
  show (kind >>= _).run w = _
  rw [Rule.run_kind (show w.cursor.current.kind = .identifier by rw [hw]; rfl)]
  show (if w.cursor.isWord "new" then _ else Rule.run parsing budget .member : Locator Unit).run w = _
  rw [hw, isWord_atName n (by decide)]
  rfl

/-- The walk of a text of chains reads all of them. -/
theorem walk_chains (parsing : Parsing) (n : Nat) {c : Cursor}
    (hopen : Cursor.open? (chains (n + 1)) = .ok c) :
    ∃ w, walk parsing c = .ok () w ∧ w.held = [0] := by
  cases hopen.symm.trans (open_chains n)
  generalize hsize : Text.byteSize (chains (n + 1)) = size at hopen ⊢
  -- Two calls for each of the chains, and one for the last name.
  have hprimary : ∀ {budget : Nat} {w : Walk (List Nat)}, 2 * (n + 1) + 1 ≤ budget →
      w.cursor = atName size 0 n → ∃ u, (Rule.run parsing budget .primary).run w = .ok () u ∧
        u.cursor.current.isFinish = true ∧ u.held = w.held := by
    intro budget w hbudget hw
    obtain ⟨budget, rfl⟩ := Nat.exists_eq_add_of_le' (show 1 ≤ budget by omega)
    rw [run_primary_atName n hw]
    obtain ⟨c, depth, held⟩ := w
    cases hw
    obtain ⟨c, hc, hok⟩ := ok_member 0 budget (Nat.le_of_succ_le_succ hbudget)
    exact ⟨_, hok, hc, rfl⟩
  -- With calls enough for the chains the walk succeeds, and more than enough make no difference.
  obtain ⟨u, hu, -, hheld⟩ := ok_of_primary (isSign_atName n) hprimary
    (show Rule.conditional.toPrimary = 13 from rfl) (.inr (by decide))
    (show (⟨atName size 0 n, 0, []⟩ : Walk (List Nat)).cursor = _ from rfl)
    (show 0 + 13 ≤ Limits.nesting by decide)
    (Nat.le_add_left (2 * (n + 1) + 1 + 13) (Rule.budget size))
  exact ⟨u, (run_eq_walk parsing hopen (Nat.le_add_right _ _)).symm.trans hu, hheld⟩

/-- **No budget is enough for all texts.**  The recursion is bounded by the size of the text: a budget
linear in it is enough, whatever is added to it.  But it is bounded by nothing else, as a member and
the chain of names after it call each other without coming past a nested rule: whatever the budget,
there is a text for which it is too small, although nothing stops the walk of that text. -/
theorem recursion_unbounded (parsing : Parsing) :
    (∀ text c k, Cursor.open? text = .ok c → Rule.budget c.size ≤ k →
      (Rule.run parsing k .conditional).run ⟨c, 0, []⟩ = walk parsing c) ∧
    ∀ k, ∃ text, locate parsing text = .ok ⟨0, text, none⟩ ∧ ∃ c, Cursor.open? text.toList = .ok c ∧
      ((Rule.run parsing k .conditional).run ⟨c, 0, []⟩).TooDeep := by
  refine ⟨fun text c k hopen hk => run_eq_walk parsing hopen hk, fun k => ?_⟩
  -- One chain more than there are calls: the text is located, but not within them.
  let text := String.ofList (chains (k + 1))
  have htext : text.toList = chains (k + 1) := String.toList_ofList
  have hopen := open_chains k
  refine ⟨text, ?_, _, htext.symm ▸ hopen, ?_⟩
  -- The operand at the start is left open, and so the fragment is the whole text.
  · obtain ⟨w, hwalk, hheld⟩ := walk_chains parsing k hopen
    rw [locate_of_ok (htext.symm ▸ hopen) hwalk, hheld]
    simp [ofOpen, Text.dropBytes?]
  · refine tooDeep_of_primary (isSign_atName k) (k := k + 1) (fun {budget w} hbudget hw => ?_) rfl rfl
      (Nat.lt_succ_self k)
    cases budget with
    | zero => exact ⟨_, w, rfl⟩
    | succ budget =>
      rw [run_primary_atName k hw]
      obtain ⟨c, depth, held⟩ := w
      cases hw
      exact tooDeep_member 0 (by omega)

/-- A budget that has room to spare for one chain, and a chain that is too long for it. -/
theorem recursion_unbounded_of_chain :
    ∃ c, Cursor.open? "a . a".toList = .ok c ∧
      (Rule.run {} (Rule.budget c.size + 1) .conditional).run ⟨c, 0, []⟩ = walk {} c ∧
      ∃ text, locate {} text = .ok ⟨0, text, none⟩ := by
  have hopen : Cursor.open? "a . a".toList = .ok ⟨5, 1, " . a".toList, ⟨.identifier, "a", 0⟩⟩ := rfl
  obtain ⟨hbounded, hunbounded⟩ := recursion_unbounded {}
  obtain ⟨text, hlocate, -⟩ := hunbounded (Rule.budget 5 + 1)
  exact ⟨_, hopen, hbounded _ _ _ hopen (Nat.le_succ _), text, hlocate⟩

end Fragment

end TypeAhead
