/-
  TypeAhead.Proofs.Fragment.Alias — THE WORD `as` AFTER A MEMBER OF WHAT `new` MAKES.

  An alias follows a member of a creation after `as`, which is a name like any other
  to the scanner.  If a chain of names is open before the word, the chain takes it.
  Where the chain ends in a dot or a plus, the word is the name after that, and the
  alias is taken for a member; then the comma after the alias is met as well.  Where
  the chain ends in a name, the word is taken for a member and the alias is left over.

      taken_of_ends     what becomes of the rules under way at `as`
      operator_words    the answer after `in`, and after `as` in a creation
-/
import TypeAhead.Proofs.Fragment.Words

namespace TypeAhead.Fragment

open Walker

namespace Rule

variable {parsing : Parsing} {text : List Char} {budget : Nat} {call : Rule → Locator Unit}
  {rule sub : Rule} {test : Cursor → Bool} {after : Located → Located} {w u v : Walk (List Nat)}
  {o : Located} {start shift : Nat} {c d e : Cursor}

/-! ## §1. At `as`. -/

/-- The walk is at `as`, with a name at `d` after it and a comma at `e` after that. -/
structure AtAlias (u : Walk (List Nat)) (d e : Cursor) : Prop where
  kind : u.cursor.current.kind = .identifier
  text : u.cursor.current.text = "as"
  next : u.cursor.next = .ok d
  name : d.current.kind = .identifier
  not_mod : d.isWord "mod" = false
  not_not : d.isWord "not" = false
  next_name : d.next = .ok e
  comma : e.current.kind = .comma

/-- A name with nothing after it that goes on with a name. -/
theorem run_member (hkind : w.cursor.current.kind = .identifier) (hnext : w.cursor.next = .ok c)
    (hc : c.current.kind ∉ [.arrow, .dot, .plus, .openParen]) (budget : Nat) :
    ((run parsing budget member).run w).TooDeep ∨
      (run parsing budget member).run w = .ok () { w with cursor := c } := by
  cases budget with
  | zero => exact .inl ⟨_, w, rfl⟩
  | succ budget =>
    right
    have hfinish : w.cursor.current.isFinish = false := by rw [Token.isFinish, hkind]; rfl
    have hreworded : (w.cursor.reword (plainName w.cursor.current.text)).next = .ok c := by
      rw [← hnext]
      exact Cursor.next_congr rfl rfl rfl rfl hfinish
    show (body parsing (run parsing budget) member).run w = _
    rw [run_body_member (by simp [Cursor.isKind, hkind]), run_bind, run_advance hreworded]
    exact run_afterName_of_not hc

/-- A chain of names that goes on with a name takes that for a member. -/
theorem run_afterLink (hkind : w.cursor.current.kind = .identifier) (hnext : w.cursor.next = .ok c)
    (hc : c.current.kind ∉ [.arrow, .dot, .plus, .openParen]) (budget : Nat) (k : Option Nat) :
    ((afterLink (run parsing budget) k).run w).TooDeep ∨
      (afterLink (run parsing budget) k).run w = .ok () { w with cursor := c } := by
  have hjoint : isJoint w.cursor = false := by simp [isJoint, Cursor.isAny, hkind]
  show (((goOn isJoint (do advance; linkedName) k).run w).andThen _).TooDeep ∨
    ((goOn isJoint (do advance; linkedName) k).run w).andThen _ = _
  rcases run_goOn_of_not (do advance; linkedName) k hjoint with hdeep | hok
  · exact .inl (hdeep.andThen _)
  · have honly : (onlyIf (fun c => c.isKind .identifier) (run parsing budget member)).run w =
        (run parsing budget member).run w := by
      rw [run_onlyIf]
      exact if_pos (by simpa [Cursor.isKind] using hkind)
    rw [hok]
    show ((onlyIf _ _).run w).TooDeep ∨ (onlyIf _ _).run w = _
    rw [honly]
    exact run_member hkind hnext hc budget

/-- A text ends in one token only. -/
theorem ChainEnds.unique {kind kind' : TokenKind} (h : ChainEnds text kind)
    (h' : ChainEnds text kind') : kind = kind' := by
  obtain ⟨past, c, hreached, hfinish, -⟩ := h
  obtain ⟨past', c', hreached', hfinish', -⟩ := h'
  have hpast := (hreached.unique hreached'
    ((hreached.start_of_finish hfinish).trans (hreached'.start_of_finish hfinish').symm)).1
  exact (List.cons.inj hpast).1

/-- What may become of a rule at `as`: it is left there, or a chain of names has taken the word, either
for a name that it joins, and then the alias for a member, or for a member, and then the alias is met. -/
inductive Taken (text : List Char) (u : Walk (List Nat)) (d e : Cursor) : Located → Prop where
  | deep {o : Located} (h : o.TooDeep) : Taken text u d e o
  | left {v : Walk (List Nat)} (hv : v.cursor = u.cursor) : Taken text u d e (.ok () v)
  | joined {v : Walk (List Nat)} (h : ¬ ChainEnds text .identifier) (hv : v.cursor = e) :
      Taken text u d e (.ok () v)
  | swallowed {v : Walk (List Nat)} (h : ChainEnds text .identifier) (hv : v.cursor = d) :
      Taken text u d e (.ok () v)
  | failed {fault : Fault} {v : Walk (List Nat)} (h : ChainEnds text .identifier)
      (hv : v.cursor = e) : Taken text u d e (.error (.fault fault) v)

theorem Taken.of_point (hu : AtAlias u d e) {rest : Walk (List Nat) → Located}
    (h : Point parsing (run parsing budget) text rule rest) : Taken text u d e (rest u) := by
  have hcontains : startsContainment u.cursor = false := by
    simp [startsContainment, Cursor.isOneOf, hu.kind, hu.text]
  -- Every other rule leaves the name alone, so that the walk is still on it.
  have hpass : rule ≠ nameChain → Taken text u d e (rest u) := by
    intro hrule
    rcases h.pass (u := u) (by rw [hu.kind]; decide) (fun h => absurd h hrule) (fun _ => hcontains) with
      hdeep | hok
    · exact .deep hdeep
    · rw [hok]
      exact .left rfl
  -- Only a chain of names does more with a name than to stop at it.
  cases h with
  | closed h => exact hpass (by rintro rfl; cases h)
  | literals => exact hpass (by decide)
  | named => exact hpass (by decide)
  | listed => exact hpass (by decide)
  -- Behind a joint the name is the next part of the chain, with which the text cannot have ended.
  | joint k hjoins h =>
    have hnot : ¬ ChainEnds text .identifier := by
      intro hname
      rw [h.unique hname] at hjoins
      cases hjoins
    have hlinked : linkedName.run u = .ok () { u with cursor := d } := by
      rw [linkedName, run_onlyIf, if_pos (by simpa [Cursor.isKind] using hu.kind)]
      exact run_advance hu.next
    show Taken text u d e ((linkedName.run u).andThen _)
    rw [hlinked]
    show Taken text u d e ((afterLink (run parsing budget) (some k)).run { u with cursor := d })
    rcases run_afterLink (w := { u with cursor := d }) hu.name hu.next_name (by rw [hu.comma]; decide)
      budget (some k) with hdeep | hok
    · exact .deep hdeep
    · rw [hok]
      exact .joined hnot rfl
  -- Behind a name the word `as` is taken for a further part.
  | linked k h =>
    show Taken text u d e ((afterLink (run parsing budget) (some k)).run u)
    rcases run_afterLink hu.kind hu.next (by rw [hu.name]; decide) budget (some k) with hdeep | hok
    · exact .deep hdeep
    · rw [hok]
      exact .swallowed h rfl

/-- An alias that is met where a containment may go on may be one of its words; then the comma after it
is no operand. -/
theorem Taken.of_container (hu : AtAlias u d e) (h : ChainEnds text .identifier) (hv : v.cursor = d)
    (htest : startsContainment d = true) (k : Option Nat) :
    Taken text u d e ((goOn startsContainment (container call) k).run v) := by
  rcases run_goOn_of_test (container call) k (hv ▸ htest) with hdeep | ⟨k', hrun⟩
  · exact .deep hdeep
  -- The name is no `not`, so that one token is read as the operator.
  have honly : (fun _ : Cursor => v.cursor.current.text == "not" ||
      v.cursor.current.kind == .exclamation) v.cursor = false := by
    have htext : d.current.text ≠ "not" := by
      intro htext
      have hnot := hu.not_not
      rw [Cursor.isWord, hu.name, htext] at hnot
      exact absurd hnot (by decide)
    simp [hv, hu.name, htext]
  have hoperator : (containmentOperator v.cursor.current).run v = .ok () { v with cursor := e } := by
    show ((onlyIf _ _).run v).andThen (fun _ => advance) = _
    rw [run_onlyIf_of_not honly]
    exact run_advance (hv ▸ hu.next_name)
  -- The alias is read as the operator, so the operand would have to start at the comma.
  have hcontainer : (container call).run v =
      .error (.fault ⟨.openParenOrIdentifierExpected, v.cursor.current.start⟩)
        { v with cursor := e } := by
    show ((containmentOperator v.cursor.current).run v).andThen _ = _
    rw [hoperator]
    exact run_kind (w := { v with cursor := e }) hu.comma _
  rw [hrun, hcontainer]
  exact .failed h rfl

/-- **At `as` rules are left, unless a chain of names takes the word.** -/
theorem taken_of_ends (hu : AtAlias u d e) (h : Ends parsing text u budget rule o) :
    Taken text u d e o := by
  -- By induction on the frames around the point: each makes its test where the one inside it has
  -- left the walk.
  induction h with
  | point h => exact .of_point hu h
  | @within budget rule sub test after o h _ ih =>
    have hpass : ∀ {v : Walk (List Nat)}, test v.cursor = false →
        (∀ v', v'.cursor = v.cursor → Taken text u d e (.ok () v')) →
        Taken text u d e (after (.ok () v)) := by
      intro v htest hv
      rcases h.pass htest with hdeep | ⟨v', hv', hcursor, -⟩
      · exact .deep hdeep
      · rw [hv']
        exact hv v' hcursor
    cases ih with
    | deep hdeep => exact .deep (h.tooDeep hdeep)
    | @failed fault v hchain hv =>
      obtain ⟨v', hv', hsame⟩ := h.error (w := v) (.fault fault)
      rw [hv']
      exact .failed hchain (hsame.1.trans hv)
    | @left v hv =>
      have htest : test v.cursor = false := by
        rw [hv]
        exact h.test_of_not (by rw [hu.kind]; decide) (by rw [Cursor.isWord, hu.kind, hu.text]; decide)
          (fun _ => by simp [startsContainment, Cursor.isOneOf, hu.kind, hu.text])
          fun _ => by simp [isAttached, Cursor.isAny, hu.kind]
      exact hpass htest fun v' hcursor => .left (hcursor.trans hv)
    | @joined v hchain hv =>
      have htest : test v.cursor = false := by
        rw [hv]
        exact h.test_of_not (by rw [hu.comma]; decide) (by rw [Cursor.isWord, hu.comma]; rfl)
          (fun _ => by simp [startsContainment, Cursor.isOneOf, hu.comma])
          fun _ => by simp [isAttached, Cursor.isAny, hu.comma]
      exact hpass htest fun v' hcursor => .joined hchain (hcursor.trans hv)
    | @swallowed v hchain hv =>
      -- The alias may be a word, so only a containment can go on at it.
      by_cases hcontains : rule = containment ∧ startsContainment d = true
      · obtain ⟨rfl, htest⟩ := hcontains
        cases h with
        | container k => exact .of_container hu hchain hv htest k
        | operators _ h => cases h
        | last h => cases h
      · have htest : test v.cursor = false := by
          rw [hv]
          exact h.test_of_not (by rw [hu.name]; decide) hu.not_mod
            (fun heq => Bool.eq_false_iff.2 fun hd => hcontains ⟨heq, hd⟩)
            fun _ => by simp [isAttached, Cursor.isAny, hu.name]
        exact hpass htest fun v' hcursor => .swallowed hchain (hcursor.trans hv)

/-! ## §2. Members of a creation. -/

/-- One more member of what `new` makes, with the comma after it. -/
def memberStep (parsing : Parsing) (call : Rule → Locator Unit) (_ : Unit) :
    Locator (Bool × Unit) := do
  if ← look fun c => c.isAny [.closeParen, .closeCurly] then pure (false, ())
  else
    createdMember parsing call false
    comma

/-- What closes a creation. -/
def closeCreation : Locator Unit := do
  demand (fun c => c.isAny [.closeParen, .closeCurly]) .closeParenOrCommaExpected
  advance

/-- The members of a creation in parentheses, and what closes it. -/
def members (parsing : Parsing) (call : Rule → Locator Unit) (k : Nat) : Locator Unit := do
  repeatUpTo (memberStep parsing call) k ()
  closeCreation

/-- Creation in parentheses: its members one by one, and what closes it. -/
theorem run_creation (hnext : w.cursor.next = .ok c) (hparen : c.current.kind = .openParen)
    (hnext' : c.next = .ok d) (budget : Nat) : (run parsing (budget + 1) creation).run w =
      (members parsing (run parsing budget) (d.size + 2)).run { w with cursor := d } := by
  have hdemand : (demand (fun c => c.isAny [.openParen, .openCurly, .openBracket, .identifier])
      .openParenOrIdentifierExpected : Locator Unit).run { w with cursor := c } =
      .ok () { w with cursor := c } := by
    rw [run_demand]
    exact if_pos (by simp [Cursor.isAny, hparen])
  -- The parenthesis comes at once, so no type is named and no array is made.
  have htype : (onlyIf (fun c => c.isKind .identifier) createdType).run { w with cursor := c } =
      .ok () { w with cursor := c } :=
    run_onlyIf_of_not (by simp [Cursor.isKind, hparen])
  have hmark : arrayMark.run { w with cursor := c } = .ok false { w with cursor := c } := by
    have htest : c.isKind .openBracket = false := by simp [Cursor.isKind, hparen]
    show (if c.isKind .openBracket then _ else pure false : Locator Bool).run _ = _
    rw [htest]
    rfl
  -- Each step in turn: past `new`, the demand, no name, no mark, past the parenthesis.
  show (advance.run w).andThen _ = _
  rw [run_advance hnext]
  show ((demand _ _ : Locator Unit).run { w with cursor := c }).andThen _ = _
  rw [hdemand]
  show ((onlyIf _ createdType).run { w with cursor := c }).andThen _ = _
  rw [htype]
  show (arrayMark.run { w with cursor := c }).andThen _ = _
  rw [hmark]
  show (advance.run { w with cursor := c }).andThen _ = _
  rw [run_advance (w := { w with cursor := c }) hnext']
  rfl

/-- What a creation does after a member and, if there is one, the comma after it. -/
def furtherMembers (parsing : Parsing) (call : Rule → Locator Unit) (k : Nat) (next : Bool × Unit) :
    Locator Unit :=
  (if next.1 then repeatUpTo (memberStep parsing call) k next.2 else pure next.2) >>= fun _ =>
    closeCreation

theorem run_comma (hw : w.cursor.current.kind = .comma) (hnext : w.cursor.next = .ok c) :
    comma.run w = .ok (true, ()) { w with cursor := c } := by
  have htest : w.cursor.isKind .comma = true := by simp [Cursor.isKind, hw]
  show (if w.cursor.isKind .comma then (do advance; pure (true, ())) else pure (false, ()) :
    Locator (Bool × Unit)).run w = _
  rw [htest]
  show (advance.run w).andThen _ = _
  rw [run_advance hnext]
  rfl

theorem run_comma_of_not (hw : w.cursor.current.kind ≠ .comma) : comma.run w = .ok (false, ()) w := by
  have htest : w.cursor.isKind .comma = false := by simpa [Cursor.isKind] using hw
  show (if w.cursor.isKind .comma then (do advance; pure (true, ())) else pure (false, ()) :
    Locator (Bool × Unit)).run w = _
  rw [htest]
  rfl

/-- A name with nothing after it that belongs to it is a dotted name. -/
theorem run_dottedName (hw : w.cursor.current.kind = .identifier) (hnext : w.cursor.next = .ok c)
    (hc : c.current.kind ∉ [.dot, .identifier]) :
    ∃ name, dottedName.run w = .ok name { w with cursor := c } := by
  simp only [List.mem_cons, List.not_mem_nil, or_false, not_or] at hc
  have hfirst : ∀ name, (dottedStep name).run w =
      .ok (true, name ++ w.cursor.current.text) { w with cursor := c } := by
    intro name
    show (if w.cursor.current.kind = .dot || w.cursor.current.kind = .identifier then (do
        advance
        pure (true, name ++ w.cursor.current.text)) else pure (false, name) :
      Locator (Bool × String)).run w = _
    rw [if_pos (by simp [hw])]
    show (advance.run w).andThen _ = _
    rw [run_advance hnext]
    rfl
  have hlast : ∀ name, (dottedStep name).run { w with cursor := c } =
      .ok (false, name) { w with cursor := c } := by
    intro name
    show (if c.current.kind = .dot || c.current.kind = .identifier then (do
        advance
        pure (true, name ++ c.current.text)) else pure (false, name) :
      Locator (Bool × String)).run { w with cursor := c } = _
    rw [if_neg (by simp [hc.1, hc.2])]
    rfl
  -- Two rounds of the loop: the first takes the name, the second finds nothing more.
  refine ⟨"" ++ w.cursor.current.text, ?_⟩
  show ((dottedStep "").run w).andThen _ = _
  rw [hfirst]
  show ((dottedStep _).run { w with cursor := c }).andThen _ = _
  rw [hlast]
  rfl

theorem run_aliasName (hw : w.cursor.current.kind = .identifier) (hnext : w.cursor.next = .ok c)
    (hc : c.current.kind ∉ [.dot, .identifier]) (dotted : Bool) :
    ∃ name, (aliasName dotted).run w = .ok name { w with cursor := c } := by
  have hrequire : (require .identifier .identifierExpected : Locator Unit).run w = .ok () w := by
    rw [require, run_demand]
    exact if_pos (by simpa [Cursor.isKind] using hw)
  -- A dotted name is read in a loop, a plain one is the token itself.
  cases dotted with
  | true =>
    obtain ⟨name, hname⟩ := run_dottedName hw hnext hc
    refine ⟨plainName name, ?_⟩
    show ((require .identifier .identifierExpected : Locator Unit).run w).andThen _ = _
    rw [hrequire]
    show (dottedName.run w).andThen _ = _
    rw [hname]
    rfl
  | false =>
    refine ⟨plainName w.cursor.current.text, ?_⟩
    show ((require .identifier .identifierExpected : Locator Unit).run w).andThen _ = _
    rw [hrequire]
    show (advance.run w).andThen _ = _
    rw [run_advance hnext]
    rfl

/-- The part of a member that reads its alias. -/
def memberAlias (parsing : Parsing) : Locator Unit := onlyIf (fun c => !false && c.isWord "as") do
  advance
  let _ ← aliasName parsing.dottedAliases

/-- `as` and the alias after it are read up to the comma. -/
theorem run_memberAlias (hw : w.cursor = u.cursor) (hu : AtAlias u d e) :
    (memberAlias parsing).run w = .ok () { w with cursor := e } := by
  have hword : (!false && w.cursor.isWord "as") = true := by
    simp only [hw, Cursor.isWord, hu.kind, hu.text]
    decide
  obtain ⟨name, hname⟩ := run_aliasName (w := { w with cursor := d }) hu.name hu.next_name
    (by rw [hu.comma]; decide) parsing.dottedAliases
  rw [memberAlias, run_onlyIf, if_pos hword]
  show (advance.run w).andThen _ = _
  rw [run_advance (hw ▸ hu.next)]
  show ((aliasName parsing.dottedAliases).run { w with cursor := d }).andThen _ = _
  rw [hname]
  rfl

/-- Where an alias is left over, it is no alias after `as` either, as a comma follows it. -/
theorem run_memberAlias_of_swallowed (hw : w.cursor = d) (hu : AtAlias u d e) :
    (memberAlias parsing).run w = .ok () w ∨
      ∃ fault, (memberAlias parsing).run w = .error (.fault fault) { w with cursor := e } := by
  rw [memberAlias, run_onlyIf]
  split
  · right
    have hrequire : (require .identifier .identifierExpected : Locator Unit).run
        { w with cursor := e } = .error (.fault (e.fault .identifierExpected)) { w with cursor := e } := by
      rw [require, run_demand]
      exact if_neg (by simp [Cursor.isKind, hu.comma])
    refine ⟨e.fault .identifierExpected, ?_⟩
    show (advance.run w).andThen _ = _
    rw [run_advance (hw ▸ hu.next_name)]
    show (((require .identifier .identifierExpected : Locator Unit).run _).andThen _).andThen _ = _
    rw [hrequire]
    rfl
  · exact .inl rfl

theorem run_memberAlias_of_not (hw : w.cursor.current.kind ≠ .identifier) :
    (memberAlias parsing).run w = .ok () w :=
  run_onlyIf_of_not (by simp [Cursor.isWord, hw])

/-- A member, its alias, a comma, and what comes after that. -/
theorem run_members (hw : w.cursor.isAny [.closeParen, .closeCurly] = false) (k : Nat) :
    (members parsing call (k + 1)).run w =
      ((((call conditional).run w).andThen fun _ => memberAlias parsing).andThen fun _ =>
        comma).andThen (furtherMembers parsing call k) := by
  have hstep : (memberStep parsing call ()).run w =
      (((call conditional).run w).andThen fun _ => memberAlias parsing).andThen fun _ => comma := by
    show (if w.cursor.isAny [.closeParen, .closeCurly] then pure (false, ()) else (do
      createdMember parsing call false
      comma) : Locator (Bool × Unit)).run w = _
    rw [hw]
    rfl
  show (((memberStep parsing call ()).run w).andThen _).andThen _ = _
  rw [hstep, Walk.Outcome.andThen_assoc]
  rfl

variable {Q : String} {starts : List Nat} {f : Cursor}

/-- The last member of a creation settles where it does by itself. -/
theorem settled_members (hQ : Completes parsing Q starts) (hstart : starts.head? = some start)
    (hopen : Cursor.open? Q.toList = .ok c) (hc : c.isAny [.closeParen, .closeCurly] = false)
    (halike : Alike Q.toList [] shift c w.cursor) (budget k : Nat) :
    Settled (start + shift) ((members parsing (run parsing budget) k).run w) := by
  cases k with
  | zero => exact .inl ⟨_, w, rfl⟩
  | succ k =>
    rw [run_members ((readsToken_isAny _ _ _ halike.kind_eq halike.text_eq).trans hc),
      Walk.Outcome.andThen_assoc, Walk.Outcome.andThen_assoc]
    -- At the end of the text there is neither an alias nor a comma.
    refine (hQ.settled hstart hopen halike budget).andThen fun _ => halts_bind (halts_onlyIf _ ?_) ?_
    · intro c hc
      have hkind : c.current.kind = .finish := Token.isFinish_iff.1 hc
      simp [Cursor.isWord, hkind]
    · intro _ v hv
      have hkind : v.cursor.current.kind = .finish := Token.isFinish_iff.1 hv
      rw [run_bind, run_comma_of_not (by rw [hkind]; decide)]
      exact halts_bind (halts_demand _ _) (fun _ => halts_advance) v hv

/-- Where the chain does not end in a name, the member and its alias are read up to the comma. -/
theorem Taken.andThen_alias (h : Taken text u d e o) (hu : AtAlias u d e)
    (hchain : ¬ ChainEnds text .identifier) : (o.andThen fun _ => memberAlias parsing).TooDeep ∨
      ∃ v, o.andThen (fun _ => memberAlias parsing) = .ok () v ∧ v.cursor = e := by
  cases h with
  | deep hdeep => exact .inl (hdeep.andThen _)
  | @left v hv => exact .inr ⟨{ v with cursor := e }, run_memberAlias hv hu, rfl⟩
  | @joined v _ hv => exact .inr ⟨v, run_memberAlias_of_not (by rw [hv, hu.comma]; decide), hv⟩
  | swallowed h => exact absurd h hchain
  | failed h => exact absurd h hchain

/-- **Where a chain of names is not open after a name, the alias and the comma are read**, and the
member after them is walked. -/
theorem settled_of_taken (hQ : Completes parsing Q starts) (hstart : starts.head? = some start)
    (hopen : Cursor.open? Q.toList = .ok c) (hc : c.isAny [.closeParen, .closeCurly] = false)
    (hu : AtAlias u d e) (hnext : e.next = .ok f) (halike : Alike Q.toList [] shift c f)
    (hw : w.cursor.isAny [.closeParen, .closeCurly] = false)
    (hchain : ¬ ChainEnds text .identifier)
    (h : Taken text u d e ((run parsing budget conditional).run w)) (k : Nat) :
    Settled (start + shift) ((members parsing (run parsing budget) (k + 1)).run w) := by
  rw [run_members hw]
  rcases h.andThen_alias hu hchain with hdeep | ⟨v, hv, hcursor⟩
  · exact .inl ((hdeep.andThen _).andThen _)
  · rw [hv]
    show Settled _ ((comma.run v).andThen _)
    rw [run_comma (hcursor ▸ hu.comma) (hcursor ▸ hnext)]
    exact settled_members (w := { v with cursor := f }) hQ hstart hopen hc halike budget k

/-- The walk has failed for being too deep, or at a token that starts before `stop`. -/
def StopsBefore (stop : Nat) (o : Located) : Prop :=
  o.TooDeep ∨ ∃ fault v, o = .error (.fault fault) v ∧ v.cursor.current.start < stop

/-- Rules under way do not help a walk that has stopped. -/
theorem Frame.stopsBefore (h : Frame call rule sub test after) {stop : Nat}
    (ho : StopsBefore stop o) : StopsBefore stop (after o) := by
  rcases ho with hdeep | ⟨fault, v, rfl, hv⟩
  · exact .inl (h.tooDeep hdeep)
  · obtain ⟨v', hv', hsame⟩ := h.error (w := v) (.fault fault)
    exact .inr ⟨fault, v', hv', by rwa [hsame.1]⟩

/-- **Where a chain of names takes `as` for a member, the walk stops at the alias or at the comma.** -/
theorem stops_of_taken (hu : AtAlias u d e) (hw : w.cursor.isAny [.closeParen, .closeCurly] = false)
    (hleft : ∀ v, (run parsing budget conditional).run w = .ok () v → v.cursor ≠ u.cursor)
    (hchain : ChainEnds text .identifier) {stop : Nat}
    (hstop : ∀ c, c = d ∨ c = e → c.current.start < stop)
    (h : Taken text u d e ((run parsing budget conditional).run w)) (k : Nat) :
    StopsBefore stop ((members parsing (run parsing budget) (k + 1)).run w) := by
  rw [run_members hw]
  generalize hrun : (run parsing budget conditional).run w = o at h hleft
  cases h with
  | deep hdeep => exact .inl (((hdeep.andThen _).andThen _).andThen _)
  -- The member was not left at the alias, and its chain took the name.
  | left hv => exact absurd hv (hleft _ rfl)
  | joined h => exact absurd hchain h
  | @failed fault v _ hv => exact .inr ⟨fault, v, rfl, hstop _ (.inr hv)⟩
  -- The alias stands where a comma or the end of the creation is demanded.
  | @swallowed v _ hv =>
    show StopsBefore stop ((((memberAlias parsing).run v).andThen _).andThen _)
    rcases run_memberAlias_of_swallowed hv hu with hok | ⟨fault, hfault⟩
    · have hclosed : closeCreation.run v =
          .error (.fault (v.cursor.fault .closeParenOrCommaExpected)) v := by
        show ((demand _ _ : Locator Unit).run v).andThen _ = _
        rw [run_demand, if_neg (by simp [Cursor.isAny, hv, hu.name])]
        rfl
      rw [hok]
      show StopsBefore stop ((comma.run v).andThen _)
      rw [run_comma_of_not (by rw [hv, hu.name]; decide)]
      show StopsBefore stop (closeCreation.run v)
      rw [hclosed]
      exact .inr ⟨_, v, rfl, hstop _ (.inl hv)⟩
    · rw [hfault]
      exact .inr ⟨fault, _, rfl, hstop _ (.inr rfl)⟩

/-- A creation of which the first member is too deep is so. -/
theorem tooDeep_members (hw : w.cursor.isAny [.closeParen, .closeCurly] = false)
    (h : ((run parsing budget conditional).run w).TooDeep) (k : Nat) :
    ((members parsing (run parsing budget) (k + 1)).run w).TooDeep := by
  rw [run_members hw]
  exact ((h.andThen _).andThen _).andThen _

/-- The word `new` starts a creation. -/
theorem run_primary_new (hw : w.cursor.current = ⟨.identifier, "new", 0⟩) (budget : Nat) :
    (run parsing (budget + 1) primary).run w = (run parsing budget creation).run w := by
  have hword : w.cursor.isWord "new" = true := by
    simp only [Cursor.isWord, hw]
    decide
  have hkind : w.cursor.current.kind = .identifier := by rw [hw]
  show (Walker.kind >>= fun kind => _).run w = _
  rw [run_kind hkind]
  show (if w.cursor.isWord "new" then run parsing budget creation else run parsing budget member).run w = _
  rw [hword]
  rfl

end Rule

/-! ## §3. Creations with an alias. -/

/-- The text is one name, whatever blanks are around it. -/
def IsName (text : String) : Prop :=
  ∃ c d, Cursor.open? text.toList = .ok c ∧ c.current.kind = .identifier ∧ c.next = .ok d ∧
    d.current.isFinish = true

/-- What comes after the first member of a creation that has an alias. -/
def afterMember (N Q : String) : List Char :=
  " as ".toList ++ (N.toList ++ (", ".toList ++ (Q.toList ++ [])))

section

variable {parsing : Parsing} {M N Q : String} {startsM starts : List Nat} {start shift : Nat}
  {c c' d e f : Cursor} {text more : List Char} {w u v : Walk (List Nat)} {budget : Nat}

theorem follows_afterMember (N Q : String) : Follows (afterMember N Q) :=
  spells_as.follows _

/-- A creation in parentheses is read up to its first member. -/
theorem open_creation (hmore : Follows more) (hopen : Cursor.open? text = .ok c)
    (hc : c.current.isFinish = false) : ∃ c₀ c₁ d,
      Cursor.open? ("new (".toList ++ (text ++ more)) = .ok c₀ ∧
      c₀.current = ⟨.identifier, "new", 0⟩ ∧ c₀.next = .ok c₁ ∧ c₁.current.kind = .openParen ∧
      c₁.next = .ok d ∧ Alike text more 5 c d := by
  rw [show "new (".toList = ['n', 'e', 'w', ' ', '('] from rfl]
  obtain ⟨d, hd, halike⟩ := open_within hmore hopen (fun _ => hc)
    (nofun : ∀ e ∈ ([] : List Char), Text.isBlank e = true)
    (by decide : some TokenKind.openParen ≠ some .dot) (rfl : 5 + Text.byteSize [] = 5)
    (Text.byteSize (['n', 'e', 'w', ' ', '('] ++ (text ++ more)))
  have hnew : Scan.token none 0 ('n' :: (['e', 'w'] ++ ' ' :: '(' :: (text ++ more))) =
      .ok (⟨.identifier, "new", 0⟩, ' ' :: '(' :: (text ++ more)) :=
    plainWord_new.token_blank _ _ _
  exact ⟨_, ⟨_, 5, text ++ more, ⟨.openParen, "(", 4⟩⟩, d, read_eq_of_token hnew, rfl, rfl, rfl, hd,
    halike⟩

/-- After a member the walk is at `as`; the name after it, and the comma after that, are read. -/
theorem Edge.atAlias {base : List Nat}
    (h : Edge text (afterMember N Q) shift starts base u) (hN : IsName N)
    (hopen : Cursor.open? Q.toList = .ok c) : ∃ d e f, Rule.AtAlias u d e ∧ e.next = .ok f ∧
      Alike Q.toList [] (Text.byteSize text + shift + (" as " ++ N ++ ", ").utf8ByteSize) c f ∧
      ∀ c', c' = d ∨ c' = e →
        c'.current.start < Text.byteSize text + shift + (" as " ++ N ++ ", ").utf8ByteSize := by
  obtain ⟨cN, cN', hopenN, hname, hnextN, hfinish⟩ := hN
  have hmore := spells_comma.follows (Q.toList ++ [])
  have hne : ", ".toList ++ (Q.toList ++ []) ≠ [] := by simp
  have hcN : cN.current.isFinish = false := by rw [Token.isFinish, hname]; rfl
  -- From the edge on, the tokens are `as`, the name and the comma, each read where the last one ended.
  obtain ⟨hkind, htext, d, hnext, halike⟩ := h.next spells_as hmore hopenN fun _ => hcN
  obtain ⟨e, hnext', halike' | ⟨-, -, size, previous, hread⟩⟩ := halike.next hmore hnextN
  · cases (halike'.finish hne).symm.trans hfinish
  obtain ⟨hcomma, -, f, hnextf, halikef⟩ := spells_comma.read follows_nil hopen (fun h => absurd rfl h) hread
  have hsize : (" as " ++ N ++ ", ").utf8ByteSize =
      Text.byteSize " as ".toList + Text.byteSize N.toList + Text.byteSize ", ".toList := by
    simp only [Text.byteSize_toList, String.utf8ByteSize_append]
  -- The scanner makes symbols of the words that are operators, so an identifier is none of them.
  have hword : ∀ word, TokenKind.ofWord? word ≠ none → d.isWord word = false := fun word hword =>
    (readsToken_isWord word _ _ halike.kind_eq halike.text_eq).trans
      (Cursor.isWord_of_open hopenN hword)
  refine ⟨d, e, f, ⟨hkind, htext, hnext, halike.kind_eq.trans hname, hword _ (by decide),
    hword _ (by decide), hnext', hcomma⟩, hnextf, ?_, ?_⟩
  · rw [hsize]
    convert halikef using 1
    omega
  · have hcomma : Text.byteSize ", ".toList = 2 := rfl
    obtain ⟨before, hbefore, hstart⟩ := spells_comma.exists_start
    have hone : ",".utf8ByteSize = 1 := rfl
    have hd := halike.start_eq
    have he := hstart hread
    have hle := (Reaches.first hopenN).start_le
    rintro c' (rfl | rfl) <;> omega

/-- The first token of an expression closes nothing. -/
theorem Completes.not_closing (h : Completes parsing M startsM) (hopen : Cursor.open? M.toList = .ok c) :
    c.isAny [.closeParen, .closeCurly] = false := by
  refine Bool.eq_false_iff.2 fun hclosing => ?_
  have hkind : c.current.kind = .closeParen ∨ c.current.kind = .closeCurly := by
    simpa [Cursor.isAny] using hclosing
  -- The rules down to the primary start with one another, and that one fails at the bracket.
  have hfails : ∃ failure v, walk parsing c = .error failure v := by
    refine Rule.of_primary (c := c) (V := fun o => ∃ failure v, o = .error failure v)
      ?_ ?_ ?_ ?_ _ rfl rfl rfl (Nat.zero_le _)
    · rintro _ ⟨_, v, rfl⟩
      exact ⟨_, v, rfl⟩
    · rintro _ _ _ _ _ _ hframe ⟨failure, v, rfl⟩
      obtain ⟨v', hv', -⟩ := hframe.error (w := v) failure
      exact ⟨failure, v', hv'⟩
    · rcases hkind with hkind | hkind <;>
        simp [Rule.isSign, Cursor.isAny, Cursor.isWord, hkind]
    · intro budget v hv _ _
      cases budget with
      | zero => exact ⟨_, v, rfl⟩
      | succ budget =>
        subst hv
        rcases hkind with hkind | hkind <;>
          exact ⟨_, v, Rule.run_kind hkind _⟩
  obtain ⟨c', w, hopen', hwalk, -⟩ := h
  cases hopen.symm.trans hopen'
  obtain ⟨_, _, hfault⟩ := hfails
  cases hwalk.symm.trans hfault

/-- A creation has come from its first member at `w` to `as` at `u`. -/
structure AtMember (parsing : Parsing) (M N Q : String) (startsM : List Nat) (budget : Nat)
    (w u : Walk (List Nat)) : Prop where
  reached : Reaches ("new (".toList ++ (M.toList ++ afterMember N Q)) [.openParen, .identifier] w.cursor
  opens : ∃ c, Cursor.open? M.toList = .ok c ∧ Alike M.toList (afterMember N Q) 5 c w.cursor
  edge : Edge M.toList (afterMember N Q) 5 startsM w.held u
  ends : Rule.Ends parsing M.toList u budget .conditional
    ((Rule.run parsing budget .conditional).run w)

/-- **A creation is walked up to the end of its first member.** -/
theorem Completes.creation (hM : Completes parsing M startsM) (N Q : String) :
    ∃ c, Cursor.open? ("new (".toList ++ (M.toList ++ afterMember N Q)) = .ok c ∧
      c.current = ⟨.identifier, "new", 0⟩ ∧ ∀ budget v, v.cursor = c →
      ((Rule.run parsing budget .primary).run v).TooDeep ∨ ∃ budget' k w u,
        (Rule.run parsing budget .primary).run v =
          (Rule.members parsing (Rule.run parsing budget') (k + 1)).run w ∧
        w.cursor.isAny [.closeParen, .closeCurly] = false ∧ w.held = v.held ∧ w.depth = v.depth ∧
        AtMember parsing M N Q startsM budget' w u := by
  obtain ⟨cM, hopen⟩ := hM.opens
  have hne : afterMember N Q ≠ [] := by simp [afterMember]
  obtain ⟨c₀, c₁, d, hc₀, hnew, hnext, hparen, hnext', halike⟩ :=
    open_creation (follows_afterMember N Q) hopen (hM.isFinish_of_open hopen)
  have hd : d.isAny [.closeParen, .closeCurly] = false :=
    (readsToken_isAny _ _ _ halike.kind_eq halike.text_eq).trans (hM.not_closing hopen)
  -- The two tokens `new` and `(` have been read before the member.
  have hreached : Reaches ("new (".toList ++ (M.toList ++ afterMember N Q)) [.openParen, .identifier] d := by
    have hc₁ := (Reaches.first hc₀).next (by rw [Token.isFinish, hnew]; rfl) hnext
    have hd := hc₁.next (by rw [Token.isFinish, hparen]; rfl) hnext'
    rwa [hparen, hnew] at hd
  refine ⟨c₀, hc₀, hnew, fun budget v hv => ?_⟩
  -- A budget that is used up on the way to the member is a walk that is too deep.
  cases budget with
  | zero => exact .inl ⟨_, v, rfl⟩
  | succ budget =>
    rw [Rule.run_primary_new (by rw [hv, hnew]) budget]
    cases budget with
    | zero => exact .inl ⟨_, v, rfl⟩
    | succ budget =>
      rw [Rule.run_creation (hv ▸ hnext) hparen hnext' budget]
      -- Behind the parenthesis the member is walked as by itself, up to the edge of its text.
      rcases hM.ends (follows_afterMember N Q) hne hopen (w := { v with cursor := d }) halike budget with
        hdeep | ⟨u, hedge, hends⟩
      · exact .inl (Rule.tooDeep_members hd hdeep _)
      · exact .inr ⟨budget, d.size + 1, { v with cursor := d }, u, rfl, hd, rfl, rfl, hreached,
          ⟨cM, hopen, halike⟩, hedge, hends⟩

/-- Where the chain that is open at the end of a member ends in a name, no rule is left at `as`. -/
theorem AtMember.not_left (h : AtMember parsing M N Q startsM budget w u)
    (hopen : Cursor.open? ("new (".toList ++ (M.toList ++ afterMember N Q)) = .ok c)
    (hzero : c.current.start = 0) (hheld : w.held = [0]) (hdepth : w.depth ≤ Limits.nesting)
    (hname : u.cursor.current.kind = .identifier) (hchain : Rule.ChainEnds M.toList .identifier)
    (hv : (Rule.run parsing budget .conditional).run w = .ok () v) : v.cursor ≠ u.cursor := by
  intro hcursor
  obtain ⟨cM, hopenM, halike⟩ := h.opens
  have hpos := (Reaches.first hopen).start_lt h.reached (Nat.zero_lt_succ _)
  have hopened : ∀ start ∈ w.held,
      Opened ("new (".toList ++ (M.toList ++ afterMember N Q)) start := by
    rw [hheld]
    exact List.forall_mem_singleton.2 ⟨[], c, .first hopen, hzero, openable_nil⟩
  have hbelow : ∀ start ∈ w.held, start < w.cursor.current.start := by
    rw [hheld]
    exact List.forall_mem_singleton.2 (by omega)
  -- Behind the parenthesis an operand may open, and only that of `new` is open.
  have hfresh : Fresh ("new (".toList ++ (M.toList ++ afterMember N Q)) 0 w :=
    ⟨⟨⟨_, .of_reaches h.reached⟩, fun _ => ⟨_, h.reached⟩, hopened,
      hheld ▸ List.pairwise_singleton _ _, fun start hmem => Nat.le_of_lt (hbelow start hmem), hdepth,
      Nat.zero_le _, fun _ _ => Nat.zero_le _⟩, hbelow, _, h.reached, openable_cons_of_not rfl nofun⟩
  have hexit : Clear ("new (".toList ++ (M.toList ++ afterMember N Q)) 0 Leaves v :=
    (Rule.sound_run parsing budget .conditional w hfresh).ok hv
  obtain ⟨past, hreached, hleaves⟩ := hexit.reached
  -- The token at which the rule was left comes after the chain.
  obtain ⟨past', d, hd, hpast, _, _, hread⟩ :=
    hchain.reaches (follows_afterMember N Q) (by simp [afterMember]) hopenM h.reached halike
  obtain ⟨_, _, hread'⟩ := h.edge.cursor
  obtain ⟨before, -, hstart⟩ := spells_as.exists_start
  obtain ⟨rfl, -⟩ := hreached.unique hd (by rw [hcursor, hstart hread, hstart hread'])
  rw [hcursor] at hleaves
  rw [hleaves.name hname] at hpast
  cases hpast

/-- The text of a creation with an alias. -/
theorem toList_creation (M N Q : String) : ("new (" ++ M ++ " as " ++ N ++ ", " ++ Q).toList =
    "new (".toList ++ (M.toList ++ afterMember N Q) := by
  simp [afterMember]

theorem size_creation (M N : String) : ("new (" ++ M ++ " as " ++ N ++ ", ").utf8ByteSize =
    Text.byteSize M.toList + 5 + (" as " ++ N ++ ", ").utf8ByteSize := by
  simp only [Text.byteSize_toList, String.utf8ByteSize_append]
  have hfive : "new (".utf8ByteSize = 5 := rfl
  omega

/-- After an alias that no chain of names takes. -/
theorem locates_after_alias (hM : Completes parsing M startsM) (hN : IsName N)
    (hQ : Completes parsing Q starts) (hstart : starts.head? = some start)
    (hchain : ¬ Rule.ChainEnds M.toList .identifier) :
    Locates parsing ("new (" ++ M ++ " as " ++ N ++ ", " ++ Q)
      (start + ("new (" ++ M ++ " as " ++ N ++ ", ").utf8ByteSize) := by
  obtain ⟨cQ, hopen⟩ := hQ.opens
  obtain ⟨c, hc, hnew, hprimary⟩ := hM.creation N Q
  refine locates_of_settled (by rw [toList_creation]; exact hc) ?_
  -- The rules down to the primary start with one another; that one makes the creation.
  refine Rule.of_primary (c := c) (fun _ h => .inl h) (fun hframe h => hframe.settled h) ?_ ?_ _ rfl rfl
    rfl (Nat.zero_le _)
  · simp only [Rule.isSign, Cursor.isAny, Cursor.isWord, hnew]
    decide
  · intro budget v hv _ _
    rcases hprimary budget v hv with hdeep | ⟨budget', k, w, u, hrun, hw, -, -, hat⟩
    · exact .inl hdeep
    · obtain ⟨d, e, f, hu, hnext, halike, -⟩ := hat.edge.atAlias hN hopen
      rw [hrun, size_creation]
      -- The alias is gone past, and behind its comma the member `Q` is walked as by itself.
      exact Rule.settled_of_taken hQ hstart hopen (hQ.not_closing hopen) hu hnext halike hw hchain
        (Rule.taken_of_ends hu hat.ends) k

/-- After an alias that a chain of names leaves over: the walk stops before the next member. -/
theorem start_lt_of_swallowed (hM : Completes parsing M startsM) (hN : IsName N)
    (hQ : Completes parsing Q starts) (hchain : Rule.ChainEnds M.toList .identifier) {r : Fragment}
    (hr : locate parsing ("new (" ++ M ++ " as " ++ N ++ ", " ++ Q) = .ok r) :
    StopsTooDeep parsing ("new (" ++ M ++ " as " ++ N ++ ", " ++ Q) ∨
      r.start < ("new (" ++ M ++ " as " ++ N ++ ", ").utf8ByteSize := by
  obtain ⟨cQ, hopen⟩ := hQ.opens
  obtain ⟨c, hc, hnew, hprimary⟩ := hM.creation N Q
  have hstops : Rule.StopsBefore ("new (" ++ M ++ " as " ++ N ++ ", ").utf8ByteSize
      (walk parsing c) := by
    -- The creation fails at the alias or before it, and each rule around it fails with it.
    refine Rule.of_primary (c := c) (fun _ h => .inl h) (fun hframe h => hframe.stopsBefore h) ?_ ?_ _
      rfl rfl rfl (Nat.zero_le _)
    · simp only [Rule.isSign, Cursor.isAny, Cursor.isWord, hnew]
      decide
    · intro budget v hv hheld hdepth
      rcases hprimary budget v hv with hdeep | ⟨budget', k, w, u, hrun, hw, hwheld, hwdepth, hat⟩
      · exact .inl hdeep
      · obtain ⟨d, e, f, hu, -, -, hbefore⟩ := hat.edge.atAlias hN hopen
        have hzero : w.held = [0] := by rw [hwheld, hheld, hnew]
        rw [hrun, size_creation]
        exact Rule.stops_of_taken hu hw (fun v hv => hat.not_left hc (by rw [hnew]) hzero
          (hwdepth ▸ hdepth) hu.kind hchain hv) hchain hbefore (Rule.taken_of_ends hu hat.ends) k
  rw [← toList_creation] at hc
  rcases hstops with ⟨position, v, hdeep⟩ | ⟨fault, v, hfault, hv⟩
  · exact .inl ⟨_, position, locate_of_fault hc hdeep, rfl⟩
  · right
    rcases start_of_locate hr with hzero | ⟨c', hc', hmem⟩
    · rw [hzero]
      exact Nat.lt_of_le_of_lt (Nat.zero_le _) hv
    · cases hc.symm.trans hc'
      -- What is open where the walk fails was opened before that place.
      have hsound := sound_walk parsing hc
      rw [hfault] at hmem hsound
      exact Nat.lt_of_le_of_lt (hsound.below _ hmem) hv

end

/-! ## §4. The answer. -/

/-- The text starts with a name. -/
def StartsWithName (text : String) : Prop :=
  ∃ c, Cursor.open? text.toList = .ok c ∧ c.current.kind = .identifier

/-- **The words `in` and `as` after an operand** are operators exactly where no chain of names takes
them.  What follows `in` is found as the fragment if and only if the text before it does not end in an
open chain; the fragment of what follows an alias is found if and only if the member before `as` does
not end in one that ends in a name.  Texts that are too deep are left aside. -/
theorem operator_words (parsing : Parsing) {A P M N Q : String} {startsA startsM startsQ : List Nat}
    (hA : Completes parsing A startsA) (hP : Completes parsing P [0]) (hfirst : StartsWithName P)
    (hM : Completes parsing M startsM) (hN : IsName N) (hQ : Completes parsing Q startsQ)
    (hopenQ : startsQ ≠ []) :
    (StopsTooDeep parsing (A ++ " in " ++ P) ∨
      ((∃ r, locate parsing (A ++ " in " ++ P) = .ok r ∧ r.start = A.utf8ByteSize + 4 ∧ r.text = P) ↔
        ¬ ∃ kind, Rule.ChainEnds A.toList kind)) ∧
    (StopsTooDeep parsing ("new (" ++ M ++ " as " ++ N ++ ", " ++ Q) ∨
      ((∃ r rQ, locate parsing ("new (" ++ M ++ " as " ++ N ++ ", " ++ Q) = .ok r ∧
        locate parsing Q = .ok rQ ∧
        r.start = ("new (" ++ M ++ " as " ++ N ++ ", ").utf8ByteSize + rQ.start) ↔
        ¬ Rule.ChainEnds M.toList .identifier)) := by
  have hsize : (A ++ " in ").utf8ByteSize = A.utf8ByteSize + 4 := by
    rw [String.utf8ByteSize_append]
    rfl
  -- A chain that is open before the word takes it; otherwise the rule for the word comes to it.
  constructor
  · by_cases hchain : ∃ kind, Rule.ChainEnds A.toList kind
    · refine .inr ⟨fun ⟨r, hr, hstart, _⟩ => ?_, fun h => absurd hchain h⟩
      obtain ⟨kind, hchain⟩ := hchain
      exact absurd (hstart.trans hsize.symm) (start_ne_of_chain hA hP hchain hr)
    · obtain ⟨c, hopen, hname⟩ := hfirst
      obtain ⟨r, hr, ⟨position, hdeep⟩ | hstart⟩ := locates_after_in hA hP hopen hname hchain
      · exact .inl ⟨r, position, hr, hdeep⟩
      · exact .inr ⟨fun _ => hchain, fun _ => ⟨r, hr, hstart.trans hsize, text_of_locate hr hstart⟩⟩
  · obtain ⟨start, starts, rfl⟩ := List.exists_cons_of_ne_nil hopenQ
    by_cases hchain : Rule.ChainEnds M.toList .identifier
    · by_cases hdeep : StopsTooDeep parsing ("new (" ++ M ++ " as " ++ N ++ ", " ++ Q)
      · exact .inl hdeep
      · refine .inr ⟨fun ⟨r, rQ, hr, _, hstart⟩ => ?_, fun h => absurd hchain h⟩
        have hlt := (start_lt_of_swallowed hM hN hQ hchain hr).resolve_left hdeep
        omega
    · obtain ⟨r, hr, ⟨position, hdeep⟩ | hstart⟩ := locates_after_alias hM hN hQ rfl hchain
      · exact .inl ⟨r, position, hr, hdeep⟩
      · refine .inr ⟨fun _ => hchain, fun _ => ⟨r, _, hr, hQ.locate, ?_⟩⟩
        rw [hstart, Nat.add_comm]
        rfl

/-- A chain of names takes `in`, while a name alone leaves `as` to a creation. -/
theorem operator_words_after_names :
    (Completes {} "a.b" [0] ∧ Completes {} "x" [0] ∧ StartsWithName "x" ∧ IsName "n" ∧ [0] ≠ []) ∧
    Rule.ChainEnds "a.b".toList .identifier ∧
    (¬ ∃ r, locate {} ("a.b" ++ " in " ++ "x") = .ok r ∧ r.start = "a.b".utf8ByteSize + 4 ∧
      r.text = "x") ∧
    (StopsTooDeep {} ("new (" ++ "x" ++ " as " ++ "n" ++ ", " ++ "x") ∨
      ((∃ r rQ, locate {} ("new (" ++ "x" ++ " as " ++ "n" ++ ", " ++ "x") = .ok r ∧
        locate {} "x" = .ok rQ ∧
        r.start = ("new (" ++ "x" ++ " as " ++ "n" ++ ", ").utf8ByteSize + rQ.start) ↔
        ¬ Rule.ChainEnds "x".toList .identifier)) := by
  have hA : Completes {} "a.b" [0] := ⟨_, _, rfl, rfl, rfl, rfl⟩
  have hx : Completes {} "x" [0] := ⟨_, _, rfl, rfl, rfl, rfl⟩
  have hfirst : StartsWithName "x" := ⟨_, rfl, rfl⟩
  have hname : IsName "n" := ⟨_, _, rfl, rfl, rfl, rfl⟩
  -- The tokens of the chain one by one; the last one before the end is a name.
  have hdot : Reaches "a.b".toList [.identifier] ⟨3, 2, ['b'], ⟨.dot, ".", 1⟩⟩ :=
    .next (c := ⟨3, 1, ['.', 'b'], ⟨.identifier, "a", 0⟩⟩) (.first rfl) rfl rfl
  have hend : Reaches "a.b".toList [.identifier, .dot, .identifier] ⟨3, 3, [], ⟨.finish, "", 3⟩⟩ :=
    .next (c := ⟨3, 3, [], ⟨.identifier, "b", 2⟩⟩) (hdot.next rfl rfl) rfl rfl
  have hchain : Rule.ChainEnds "a.b".toList .identifier := ⟨_, _, hend, rfl, rfl⟩
  obtain ⟨hin, has⟩ := operator_words {} hA hx hfirst hx hname hx (by decide : [0] ≠ [])
  refine ⟨⟨hA, hx, hfirst, hname, by decide⟩, hchain, ?_, has⟩
  rcases hin with ⟨r, position, hr, hdeep⟩ | hiff
  · cases (show locate {} ("a.b" ++ " in " ++ "x") = .ok ⟨0, "a.b in x", none⟩ from rfl).symm.trans hr
    cases hdeep
  · exact fun h => hiff.1 h ⟨_, hchain⟩

end TypeAhead.Fragment
