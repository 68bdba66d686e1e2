/-
  TypeAhead.Proofs.Typing.Enclosed — TYPING UP TO AN EDGE.

  Every rule of typing comes to the same where its tokens are enclosed in brackets.
  A rule that looks further than it goes may look over the edge: there it finds a
  closing bracket in the one text and something else in the other one, and takes
  neither, or else it goes beyond the edge.

  Before a member the parts of an operand do, too, as long as the member is not the
  last word of the name of a type: what they call other rules for stands in brackets.

      copies_primary  the parts of an operand
      copies_body     the bodies of all rules, given their calls
      copies_run      every rule, up to a closing bracket
-/
import TypeAhead.Proofs.Token.Cut
import TypeAhead.Proofs.Typing.Onward
import TypeAhead.Proofs.Typing.Spelled

namespace TypeAhead.Typing

open Walker Enclosure

variable {m : EdgeKind} {exact : Bool} {p : Enclosure m exact} {α β : Type} {w v : ScopedWalk}

/-! ## §1. What does not depend on offsets. -/

/-- Offsets that are never compared. -/
def unplaced : Twins where
  alike _ _ _ := False
  place _ _ := True
  kind_eq := False.elim
  text_eq := False.elim
  start_eq := False.elim
  le_size := False.elim
  next := False.elim
  replace := False.elim

/-- What is made without regard to offsets is made at other ones too. -/
theorem ok_of_agree {e e' : Except Fault α} (h : Agree unplaced.place Eq e e') (a : α) (he : e = .ok a) :
    e' = .ok a := by
  cases h with
  | ok h => rw [← h]; exact he
  | error => cases he

/-- Tokens of the same kind with the same wording. -/
theorem sameToken_of_face {t t' : Token} (h : t'.face = t.face) : SameToken unplaced t t' :=
  have ⟨hkind, htext⟩ := Prod.mk.inj h
  ⟨hkind, htext, trivial⟩

namespace Rule

variable {s : Setting} {call call' : Rule → Typer Operand}

/-- The calls of a body take a token, and up to a closing bracket they come to the same. -/
structure CopiesCalls (exact : Bool) (call call' : Rule → Typer Operand) : Prop where
  copies : ∀ {m : EdgeKind} (r : Rule) (p : Enclosure m exact) (w v : ScopedWalk), m ≠ .member → p.Pair w v →
    p.Copies 1 0 (call r) (call' r) w v
  follows : FollowCalls onwardCourse call

/-- What expects a closing bracket is at one, if it succeeds. -/
theorem isCloser_of_expectThen {kind : TokenKind} (hkind : kind.isCloser = true) {cause : Cause}
    {f : Unit → Typer β} {b : β} (hrun : (expect kind cause >>= f).run w = .ok b v) :
    w.cursor.current.kind.isCloser = true := by
  obtain ⟨_, u, hexpect, -⟩ := eq_ok_of_bind hrun
  obtain ⟨_, t, hrequire, -⟩ := eq_ok_of_bind hexpect
  rw [require, run_demand] at hrequire
  split at hrequire
  · rename_i htest
    rw [show w.cursor.current.kind = kind by simpa [Cursor.isKind] using htest]
    exact hkind
  · cases hrequire

/-- What is seen of the kind of a token. -/
theorem readsToken_kind (P : TokenKind → Prop) [DecidablePred P] :
    Fragment.ReadsToken fun c => decide (P c.current.kind) := by
  intro c d hkind _
  simp only [hkind]

/-- Whether a rule goes on at a cursor, behind the operand of the rule inside it. -/
def goesOn : Rule → Cursor → Bool
  | conditional => fun c => c.current.kind == .question
  | coalescing => fun c => c.current.kind == .coalesce
  | projection => fun c => c.current.kind == .arrow
  | disjunction => fun c => c.current.kind == .doubleBar
  | conjunction => fun c => c.current.kind == .doubleAmpersand
  | containment => fun c => c.isOneOf ["in", "not_in", "not"] [.exclamation]
  | bitwise => fun c => [.ampersand, .bar].contains c.current.kind
  | comparison => fun c => c.current.kind.isComparison
  | shift => fun c => [.shiftLeft, .shiftRight].contains c.current.kind
  | sum => fun c => [.plus, .minus].contains c.current.kind
  | product => fun c => [.asterisk, .slash, .percent].contains c.current.kind || c.isWord "mod"
  | unary => fun _ => false
  | operand => fun c => c.isAny [.dot, .propagate, .openBracket]

/-- No rule goes on at a closing bracket. -/
theorem goesOn_closer (r : Rule) {c : Cursor} (h : c.current.kind.isCloser = true) : r.goesOn c = false := by
  cases hkind : c.current.kind <;>
    simp [hkind, TokenKind.isCloser] at h <;>
    cases r <;> simp [goesOn, hkind, Cursor.isOneOf, Cursor.isAny, Cursor.isWord, TokenKind.isComparison]

/-! ## §2. Arguments. -/

section

variable (hcall : CopiesCalls exact call call')

include hcall

/-- An argument, be it discarded or not. -/
theorem copies_argument (hm : m ≠ .member) (h : p.Pair w v) :
    p.Copies 1 0 (argument call) (argument call') w v := by
  apply copies_of_twin (by omega) _ h
  intro q t h
  apply copies_discardedOutThen h
  · exact fun q u t h => copies_pure _ h
  · exact hcall.copies conditional q w t hm h.pair

/-- Arguments, up to the bracket that is closed behind them. -/
theorem copies_arguments (hm : m ≠ .member) (h : p.Pair w v) :
    p.Copies 1 0 (arguments call) (arguments call') w v := by
  apply copies_bind (copies_argument hcall hm h)
  intro q first u t _ h
  apply copies_repeatStep _ _ h
  intro q read u t h
  apply copies_choose (readsToken_kind _) _ h
  · intro q t h hcomma
    apply copies_past (copies_advance h).before
    intro q _ u t _ h
    exact copies_bind (copies_argument hcall hm h.pair) fun _ _ _ _ _ h => copies_pure _ h
  · intro _
    exact copies_pure _ h
  · exact fun _ _ => kind_ne_of_edge (by decide)

/-- Arguments that stand before a closing bracket. -/
theorem copies_argumentsThen {f g : List Operand → Typer β} (h : p.Twin w v)
    (hcloses : ∀ a u b t, (f a).run u = .ok b t → u.cursor.current.kind.isCloser = true)
    (hf : ∀ (q : Enclosure m exact) a u t, q.Twin u t → q.Copies 1 0 (f a) (g a) u t) :
    p.Copies 1 0 (arguments call >>= f) (arguments call' >>= g) w v :=
  copies_closed (fun _ h => (copies_arguments hcall (by decide) h).still)
    (fun _ _ hrun => (follows_arguments hcall.follows w).ok hrun) hcloses (fun q a u t _ => hf q a u t) h

omit hcall in
/-- What is between parentheses stands before the one that closes, wherever the edge is. -/
theorem copies_inParentheses {inner inner' : Typer (List Operand)} {f g : List Operand → Typer β}
    (honward : ∀ u, onwardCourse.Follows inner u)
    (hinner : ∀ (q : Enclosure .inner exact) u t, q.Pair u t → q.Copies 1 0 inner inner' u t)
    (hf : ∀ (q : Enclosure m exact) read u t, q.Pair u t → q.Copies 0 0 (f read) (g read) u t)
    (h : p.Twin w v) : p.Copies 1 0 (inParentheses inner f) (inParentheses inner' g) w v := by
  have hrest : ∀ (q : Enclosure m exact) (read : List Operand) (u t : ScopedWalk), q.Twin u t →
      q.Copies 1 0 (do
        expect .closeParen .closeParenOrCommaExpected
        f read) (do
        expect .closeParen .closeParenOrCommaExpected
        g read) u t := fun q read u t h =>
    copies_bind (copies_expect (by decide) _ h) fun q _ u t _ h => hf q read u t h
  -- The parenthesis is the same in both texts, and it encloses what is read in it: for that, the
  -- closing one is the edge.
  apply copies_past (copies_expect (by decide) _ h).still.before
  intro q _ u t _ h
  apply copies_look
  rw [h.kind_eq]
  dsimp only
  split
  · exact copies_past (copies_pure _ h.pair).before fun q read u t _ h => hrest q read u t h
  -- The course says that what is read leads on, and the closing parenthesis is demanded behind it.
  · exact copies_closed (fun q h => (hinner q u t h).still) (fun _ _ hrun => (honward u).ok hrun)
      (fun _ _ _ _ => isCloser_of_expectThen rfl) (fun q read u t _ h => hrest q read u t h) h

/-- Arguments in parentheses of their own. -/
theorem copies_argumentList (h : p.Twin w v) :
    p.Copies 1 0 (argumentList call) (argumentList call') w v :=
  copies_inParentheses (follows_arguments hcall.follows) (fun _ _ _ => copies_arguments hcall (by decide))
    (fun _ read _ _ => copies_pure read) h

/-! ## §3. Members. -/

omit hcall in
/-- A name for the elements; an arrow at the edge is not taken for one in the second text. -/
theorem copies_bodyParameter (h : p.Twin w v) : p.Copies 0 1 bodyParameter bodyParameter w v := by
  have hlast : ∀ (q : Enclosure m exact) (name : Option String) (u t : ScopedWalk), q.Twin u t →
      q.Copies 0 1 (do advance; pure name : Typer (Option String)) (do advance; pure name) u t :=
    fun q name u t h => copies_before (copies_advance h).before fun _ _ _ _ _ h => (copies_pure name h.pair).before
  apply copies_look
  dsimp only [id]
  rw [h.kind_eq, h.text_eq]
  split
  -- Whether the word is a parameter is told by the token behind it, which may be the edge.
  · apply copies_peekThen h
    intro c d hnext hplace
    rcases hplace with hplace | hplace
    · rw [(Prod.mk.inj (p.face_eq hplace)).1]
      split
      · exact copies_before (copies_advance h).before fun q _ u t _ h => hlast q _ u t h
      · exact (copies_pure none h.pair).before
    · rw [if_neg (kind_ne_of_edge (by decide) hplace)]
      split
      -- An arrow there would be gone past, which is further than the first rule came.
      · apply copies_over (by omega) hnext hplace
        intro u name s hu hrun
        rw [← hu]
        exact (hlast self _ u u (twin_self u) name s hrun).1
      · exact (copies_pure none h.pair).before
  · exact (copies_pure none h.pair).before

omit hcall in
/-- What is typed in a scope is copied if it is in any enclosure. -/
theorem copies_inScope {past room : Nat} {x y : Typer α} (scope : Scope) (h : p.Twin w v)
    (hx : ∀ (q : Enclosure m exact) u t, q.Twin u t → q.Copies past room x y u t) :
    p.Copies past room (inScope scope x) (inScope scope y) w v := by
  unfold inScope
  apply copies_between
  · exact fun _ => rfl
  · exact fun _ => rfl
  · intro u t hheld
    exact congrArg List.tail hheld
  · exact fun _ _ hdepth => hdepth
  · exact hx p _ _ ⟨h.place, congrArg (scope :: ·) h.held_eq, h.depth_eq⟩

omit hcall in
/-- What follows a look at the open scopes. -/
theorem copies_scopesThen {past room : Nat} {f g : List Scope → Typer α}
    (h : p.Copies past room (f w.held) (g v.held) w v) :
    p.Copies past room (scopes >>= f) (scopes >>= g) w v :=
  h

/-- A body, with its parameter if it has one. -/
theorem copies_sequenceBody (hm : m ≠ .member) (element : TypeDef) (h : p.Pair w v) :
    p.Copies 1 0 (sequenceBody call element) (sequenceBody call' element) w v := by
  apply copies_of_twin (by omega) _ h
  intro p v h
  have hrest : p.Copies 1 0 (do
      let parameter ← bodyParameter
      inScope ⟨element, parameter⟩ (call conditional)) (do
      let parameter ← bodyParameter
      inScope ⟨element, parameter⟩ (call' conditional)) w v := by
    apply copies_past (copies_bodyParameter h)
    intro q parameter u t _ h
    exact copies_inScope _ h fun q u t h => hcall.copies conditional q u t hm h.pair
  -- The limit of scopes is met in both walks or in none, as they hold the same ones.
  apply copies_scopesThen
  rw [h.held_eq]
  dsimp only
  split
  · exact copies_failThen
  · exact hrest

/-- What an operator of sequences is called with. -/
theorem copies_calledWith (hm : m ≠ .member) (o : SequenceOperator) (element : TypeDef) (h : p.Pair w v) :
    p.Copies 1 0 (calledWith call o element) (calledWith call' o element) w v := by
  unfold calledWith
  split
  · exact copies_map (copies_sequenceBody hcall hm element h)
  · exact copies_arguments hcall hm h

/-- The call of an operator of sequences. -/
theorem copies_sequenceCall (o : SequenceOperator) (element : TypeDef) (name : String) (h : p.Twin w v) :
    p.Copies 1 0 (sequenceCall s call o element name) (sequenceCall s call' o element name) w v := by
  rw [sequenceCall_eq, sequenceCall_eq]
  apply copies_look
  apply copies_inParentheses (follows_calledWith hcall.follows o element)
    (fun _ _ _ => copies_calledWith hcall (by decide) o element) _ h
  intro q read u t h
  exact copies_ofExcept (ok_of_agree (agree_result s.registry o name element read trivial)) h

omit hcall in
/-- What is looked up does not depend on the place, but where a fault is reported does. -/
theorem copies_mentioned (name : String) (position position' : Nat) (h : p.Pair w v) :
    p.Copies 0 0 (mentioned s name position) (mentioned s name position') w v := by
  unfold mentioned
  split
  · exact copies_pure _ h
  · exact copies_failAt

/-- The call of a method. -/
theorem copies_methodCall (owner : TypeDef) (methods : List Method) (name : String)
    (position position' : Nat) (h : p.Twin w v) :
    p.Copies 1 0 (methodCall s call owner methods name position)
      (methodCall s call' owner methods name position') w v := by
  apply copies_bind (copies_argumentList hcall h)
  intro q read u t _ h
  split
  · exact copies_map (copies_mentioned _ _ _ h)
  · exact copies_failAt

/-- What follows a name: the call of a method or of an operator, if there is a parenthesis. -/
theorem copies_afterName (owner : TypeDef) (binding : Binding) (name : String) (position position' : Nat)
    (h : p.Twin w v) :
    p.Copies 1 0
      (match if (s.registry.findMethods owner name binding s.parsing.ignoreCase).isEmpty &&
          binding = .ofInstance then sequenceOperator? s owner name else none with
        | some (element, o) => sequenceCall s call o element name
        | none => methodCall s call owner (s.registry.findMethods owner name binding s.parsing.ignoreCase)
            name position)
      (match if (s.registry.findMethods owner name binding s.parsing.ignoreCase).isEmpty &&
          binding = .ofInstance then sequenceOperator? s owner name else none with
        | some (element, o) => sequenceCall s call' o element name
        | none => methodCall s call' owner (s.registry.findMethods owner name binding s.parsing.ignoreCase)
            name position') w v := by
  split
  · exact copies_sequenceCall hcall _ _ _ h
  · exact copies_methodCall hcall owner _ _ _ _ h

/-- A member of an operand. -/
theorem copies_memberAccess (owner : TypeDef) (binding : Binding) (h : p.Twin w v) :
    p.Copies 1 0 (memberAccess s call owner binding) (memberAccess s call' owner binding) w v := by
  apply copies_requireThen h
  intro hkind
  apply copies_look
  dsimp only
  rw [h.text_eq]
  apply copies_bind (copies_advance_past h (Token.isFinish_of_kind hkind (by decide)))
  intro q _ u t _ h
  apply copies_choose (readsToken_kind _) _ h
  · exact fun q t h _ => copies_afterName hcall owner binding _ _ _ h
  · intro _
    split
    · exact copies_bind (copies_mentioned _ _ _ h) fun _ _ _ _ _ h => copies_pure _ h
    · exact copies_failAt
  · exact fun _ _ => kind_ne_of_edge (by decide)

/-- An element, in brackets of its own. -/
theorem copies_elementAccess (owner : TypeDef) (h : p.Twin w v) :
    p.Copies 1 0 (elementAccess s call owner) (elementAccess s call' owner) w v := by
  apply copies_look
  apply copies_past (copies_expect (by decide) _ h).still.before
  intro q _ u t _ h
  apply copies_argumentsThen hcall h fun _ _ _ _ => isCloser_of_expectThen rfl
  intro q read u t h
  apply copies_bind (copies_expect (by decide) _ h)
  intro q _ u t _ h
  dsimp only
  split
  · exact copies_map (copies_mentioned _ _ _ h)
  · exact copies_failAt

/-! ## §4. Names. -/

omit hcall in
/-- A name of several words ends in a word, which is not before the second one. -/
theorem NamesFrom.ends {t : TypeDef} {c last : Cursor} {qualified : String} (h : NamesFrom s qualified c t last) :
    last.current.kind = .identifier ∧
      ∃ dot word, c.next = .ok dot ∧ dot.next = .ok word ∧ last.ahead ≤ word.ahead := by
  induction h with
  | last hdot _ hword hname _ => exact ⟨hname, _, _, hdot, hword, Nat.le_refl _⟩
  | again hdot _ hword _ _ ih =>
    obtain ⟨hname, dot, next, hnext, hnext', hlast⟩ := ih
    have hle := Cursor.ahead_le_of_next hnext
    have hle' := Cursor.ahead_le_of_next hnext'
    exact ⟨hname, _, _, hdot, hword, by omega⟩

/-- What a look for a name of several words finds in both texts. -/
inductive FindsAlike (p : Enclosure m exact) :
    Option (TypeDef × Cursor) → Except Fault (Option (TypeDef × Cursor)) → Prop where
  | none : FindsAlike p none (.ok none)
  | same {t : TypeDef} {last last' : Cursor} (h : p.twin last last') :
      FindsAlike p (some (t, last)) (.ok (some (t, last')))
  | beyond {t : TypeDef} {last : Cursor} {e : Except Fault (Option (TypeDef × Cursor))}
      (h : last.ahead ≤ p.level) : FindsAlike p (some (t, last)) e
  /-- The member is the last word of a name. -/
  | ended {t : TypeDef} {last f : Cursor} (hm : m = .member) (hnext : last.next = .ok f) (hf : AtEnd f) :
      FindsAlike p none (.ok (some (t, last)))
  | tooDeep {found : Option (TypeDef × Cursor)} (hloose : exact = false) (position : Nat) :
      FindsAlike p found (.error ⟨.tooDeep, position⟩)

omit hcall in
/-- A name that goes on with the member ends there. -/
theorem findsAlike_member {d dot : Cursor} (hm : m = .member) (hdot : d.next = .ok dot) (hmember : LastMember dot)
    (qualified : String) (budget : Nat) (hbudget : exact = true → 0 < budget) :
    FindsAlike p none (qualifiedType? s qualified d (budget + 1)) := by
  obtain ⟨e, f, he, hname, hf, hover⟩ := hmember.name
  have hstep : nameStep s qualified d = .ok (wordStep s qualified e) := by
    rw [nameStep_of_joint hdot (.inl hmember.dot), he]
    rfl
  -- The member is one more word of the name in the second text, where the first one is over.
  rw [qualifiedType?_succ, hstep, wordStep, if_neg (by simp [hname])]
  dsimp only
  generalize qualified ++ "." ++ plainName e.current.text = name
  cases s.registry.findAccessible? name (some s.context) with
  | some t => exact .ended hm hf hover
  | none =>
    dsimp only
    by_cases hspace : s.registry.isNamespace name (some s.context) = true
    · rw [if_pos hspace]
      dsimp only
      -- The name of a namespace goes on, but there is no dot behind the member.
      cases budget with
      | zero => exact .tooDeep (Bool.eq_false_iff.2 fun hexact => absurd (hbudget hexact) (Nat.lt_irrefl 0)) _
      | succ budget =>
        have hfinish : f.current.kind = .finish := Token.isFinish_iff.1 hover
        have hend : nameStep s name e = .ok (.inl none) := nameStep_of_other hf (by simp [hfinish])
        rw [qualifiedType?_succ, hend]
        exact .none
    · rw [if_neg hspace]
      exact .none

omit hcall in
/-- Where the edge stands in the place of a joint, the name goes on with the member, or it ends. -/
theorem nameStep_of_edge {c d dot dot' : Cursor} (hdot : c.next = .ok dot) (hdot' : d.next = .ok dot')
    (hedge : p.edge dot dot') (qualified : String) :
    nameStep s qualified d = .ok (.inl none) ∨
      m = .member ∧ c.size < d.size ∧ ∃ dot, d.next = .ok dot ∧ LastMember dot := by
  by_cases hm : m = .member
  · obtain ⟨hmember, hlt⟩ := p.member hm hedge
    rw [Cursor.size_of_next hdot, Cursor.size_of_next hdot'] at hlt
    exact .inr ⟨hm, hlt, dot', hdot', hmember⟩
  · have hcloses := p.closes hm hedge
    refine .inl (nameStep_of_other hdot' ?_)
    rintro (hjoint | hjoint)
    · simp [hjoint, TokenKind.isCloser] at hcloses
    · simp [hjoint, TokenKind.isCloser] at hcloses

omit hcall in
/-- A step over a joint and a word is the same in both texts, unless the word is not before the edge.  Then
the name goes on with the member, or it ends. -/
theorem nameStep_of_twin {c d : Cursor} (h : p.twin c d) {qualified : String}
    {next : Option (TypeDef × Cursor) ⊕ String × Cursor} (hnext : nameStep s qualified c = .ok next) :
    (∃ next', nameStep s qualified d = .ok next' ∧
      StepsAlike (fun e e' => p.twin e e' ∧ e.size = c.size ∧ e'.size = d.size) next next') ∨
    (∀ dot word, c.next = .ok dot → dot.next = .ok word → word.ahead ≤ p.level) ∧
      (nameStep s qualified d = .ok (.inl none) ∨
        m = .member ∧ c.size < d.size ∧ ∃ dot, d.next = .ok dot ∧ LastMember dot) := by
  cases hdot : c.next with
  | error fault =>
    rw [nameStep_eq, hdot] at hnext
    cases hnext
  | ok dot =>
    obtain ⟨dot', hdot', hplace⟩ := p.next h hdot
    rcases hplace with hplace | hedge
    · have hkind := (Prod.mk.inj (p.face_eq hplace)).1
      -- What joins two words is told by the kind, which both dots have.
      by_cases hjoint : dot.current.kind = .dot ∨ dot.current.kind = .plus
      · rw [nameStep_of_joint hdot hjoint] at hnext
        rw [nameStep_of_joint hdot' (hkind ▸ hjoint)]
        cases hword : dot.next with
        | error fault =>
          rw [hword] at hnext
          cases hnext
        | ok word =>
          obtain ⟨word', hword', hplace'⟩ := p.next hplace hword
          rw [hword] at hnext
          rw [hword']
          cases hnext
          rcases hplace' with hplace' | hedge
          · obtain ⟨hkind, htext⟩ := Prod.mk.inj (p.face_eq hplace')
            have hsize : word.size = c.size := (Cursor.size_of_next hword).trans (Cursor.size_of_next hdot)
            have hsize' : word'.size = d.size := (Cursor.size_of_next hword').trans (Cursor.size_of_next hdot')
            exact .inl ⟨_, rfl, stepsAlike_wordStep s qualified hkind htext ⟨hplace', hsize, hsize'⟩⟩
          · -- The edge stands in the place of the word, and is none.
            refine .inr ⟨?_, .inl (congrArg Except.ok (if_pos (kind_ne_of_edge (by decide) hedge)))⟩
            intro dot₁ word₁ hdot₁ hword₁
            cases hdot₁
            cases hword.symm.trans hword₁
            exact Nat.le_of_eq (p.ahead_eq hedge)
      · rw [nameStep_of_other hdot hjoint] at hnext
        cases hnext
        exact .inl ⟨_, nameStep_of_other hdot' (hkind ▸ hjoint), .none⟩
    -- The edge stands where the dot might be.
    · refine .inr ⟨?_, nameStep_of_edge hdot hdot' hedge qualified⟩
      intro dot₁ word₁ hdot₁ hword₁
      cases hdot₁
      have hle := Cursor.ahead_le_of_next hword₁
      rwa [p.ahead_eq hedge] at hle

omit hcall in
/-- **A name of several words** is the same in both texts, unless its last word is not before the edge or it
goes on with the member. -/
theorem findsAlike_qualifiedType? {c d : Cursor} (h : p.twin c d) (qualified : String) {budget budget' : Nat}
    (hbudget : exact = true → budget + d.size = budget' + c.size) {found : Option (TypeDef × Cursor)}
    (hfound : qualifiedType? s qualified c budget = .ok found) :
    FindsAlike p found (qualifiedType? s qualified d budget') := by
  -- Word by word.  In an exact enclosure the second budget is as large as the first one is.
  induction budget generalizing budget' qualified c d with
  | zero => cases hfound
  | succ budget ih =>
    cases budget' with
    | zero =>
      refine .tooDeep (Bool.eq_false_iff.2 fun hexact => ?_) _
      have hsize := p.size_le hexact (.inl h)
      have := hbudget hexact
      omega
    | succ budget' =>
      have hless : exact = true → budget + d.size = budget' + c.size := fun hexact => by
        have := hbudget hexact
        omega
      cases hstep : nameStep s qualified c with
      | error fault =>
        rw [qualifiedType?_succ, hstep] at hfound
        cases hfound
      | ok next =>
        rcases nameStep_of_twin h hstep with ⟨next', hstep', halike⟩ | ⟨hlevel, hends⟩
        · rw [qualifiedType?_succ, hstep] at hfound
          rw [qualifiedType?_succ, hstep']
          cases halike with
          | none =>
            cases hfound
            exact .none
          | found hword =>
            cases hfound
            exact .same hword.1
          | again hword =>
            obtain ⟨hword, hsize, hsize'⟩ := hword
            exact ih hword _ (by rw [hsize, hsize']; exact hless) hfound
        · cases found with
          | some found =>
            -- What is found ends with this word or behind it.
            obtain ⟨-, dot, word, hdot, hword, hlast⟩ := (namesFrom_of_qualifiedType? hfound).ends
            exact .beyond (Nat.le_trans hlast (hlevel dot word hdot hword))
          | none =>
            rcases hends with hnone | ⟨hm, hlonger, dot, hdot, hmember⟩
            · rw [qualifiedType?_succ, hnone]
              exact .none
            · refine findsAlike_member hm hdot hmember qualified budget' fun hexact => ?_
              have := hless hexact
              omega

/-- Where none starts at the first walk, no name of a type goes from the second one to the end of its text. -/
def NamesNothing (s : Setting) (w v : ScopedWalk) : Prop :=
  ∀ u t u', (typeName s).run w = .ok none u → (typeName s).run v = .ok (some t) u' → ¬ AtEnd u'.cursor

omit hcall in
/-- The name of a type is what the look for a name of several words finds, where the first word is none. -/
theorem run_typeName_of_look {found : Option (TypeDef × Cursor)}
    (hword : wordType? s (plainName w.cursor.current.text) = none)
    (hspace : s.registry.isNamespace (plainName w.cursor.current.text) (some s.context) = true)
    (hfound : qualifiedType? s (plainName w.cursor.current.text) w.cursor (w.cursor.size + 2) = .ok found) :
    (typeName s).run w = (found.elim (pure none) fun read => do
      jump read.2
      advance
      pure (some read.1) : Typer (Option TypeDef)).run w := by
  unfold typeName
  rw [run_bind_of_ok (show cursor.run w = .ok w.cursor w from rfl)]
  dsimp only
  rw [hword, hfound]
  refine (congrArg (fun x : Typer (Option TypeDef) => x.run w) (if_pos hspace)).trans ?_
  cases found <;> rfl

omit hcall in
/-- So a name that is found in the second text alone does not go to its end. -/
theorem NamesNothing.not_atEnd {t : TypeDef} {last f : Cursor} (hname : NamesNothing s w v) (h : p.Twin w v)
    (hword : wordType? s (plainName w.cursor.current.text) = none)
    (hspace : s.registry.isNamespace (plainName w.cursor.current.text) (some s.context) = true)
    (hnone : qualifiedType? s (plainName w.cursor.current.text) w.cursor (w.cursor.size + 2) = .ok none)
    (hfound : qualifiedType? s (plainName w.cursor.current.text) v.cursor (v.cursor.size + 2) =
      .ok (some (t, last))) (hnext : last.next = .ok f) : ¬ AtEnd f := by
  refine hname w t (v.moved f) ?_ ?_
  · rw [run_typeName_of_look hword hspace hnone]
    rfl
  · have hadvance : (advance : Typer Unit).run (v.moved last) = .ok () (v.moved f) := run_advance hnext
    rw [← h.text_eq] at hword hspace hfound
    rw [run_typeName_of_look hword hspace hfound]
    exact run_bind_of_ok hadvance

omit hcall in
/-- A name that is found in the first text, with what is found in the second one. -/
theorem copies_foundName {t : TypeDef} {last : Cursor} {q : Except Fault (Option (TypeDef × Cursor))}
    (hkind : last.current.kind = .identifier) (hle : last.ahead ≤ w.cursor.ahead)
    (halike : FindsAlike p (some (t, last)) q) (h : p.Twin w v) :
    p.Copies 0 0 (do jump last; advance; pure (some t) : Typer (Option TypeDef)) (do
      match ← ofExcept q with
      | some (t, last) =>
        jump last
        advance
        pure (some t)
      | none => pure none) w v := by
  -- From the last word of the name the walk goes on past that word.
  have hgo : ∀ {p : Enclosure m exact} {v : ScopedWalk}, p.Twin (w.moved last) v →
      p.Copies 1 0 (do advance; pure (some t) : Typer (Option TypeDef)) (do advance; pure (some t))
        (w.moved last) v := fun h =>
    copies_bind (copies_advance_past h (Token.isFinish_of_kind hkind (by decide))) fun _ _ _ _ _ h => copies_pure _ h
  have hpast : ∀ found u, (do jump last; advance; pure (some t) : Typer (Option TypeDef)).run w = .ok found u →
      u.cursor.ahead + 1 ≤ last.ahead :=
    fun found u hrun => (hgo (p := self) (twin_self (w.moved last)) found u hrun).1
  -- What is found is the same type, or it is found past the edge, or the second search is too deep.
  cases halike with
  | @same _ _ last' hplace =>
    intro found u hrun
    have hend := hpast found u hrun
    have htwin : p.Twin (w.moved last) (v.moved last') := ⟨hplace, h.held_eq, h.depth_eq⟩
    exact ⟨by omega, (hgo htwin found u hrun).2⟩
  | beyond hlevel => exact (copies_beyond hpast hle hlevel).still
  | tooDeep hloose position =>
    intro found u hrun
    have hend := hpast found u hrun
    exact ⟨by omega, fun _ => .inl ⟨hloose, position, v, rfl⟩⟩

omit hcall in
/-- Before a member a name is read on, so it must not be the beginning of the name of a type. -/
theorem copies_typeName (hname : m = .member → NamesNothing s w v) (h : p.Twin w v) :
    p.Copies 0 0 (typeName s) (typeName s) w v := by
  apply copies_look
  dsimp only [id]
  rw [h.text_eq]
  split
  · exact copies_bind (copies_advance h) fun _ _ _ _ _ h => copies_pure _ h
  -- A word is the name of a type by itself or the first one of a qualified name.
  · rename_i hword
    split
    · rename_i hspace
      cases hfound : qualifiedType? s (plainName w.cursor.current.text) w.cursor (w.cursor.size + 2) with
      | error fault => exact copies_of_fails fun _ _ hrun => by cases hrun
      | ok found =>
        have hbudget : w.cursor.size + 2 + v.cursor.size = v.cursor.size + 2 + w.cursor.size := by omega
        have halike := findsAlike_qualifiedType? h.place _ (fun _ => hbudget) hfound
        cases found with
        | some found =>
          obtain ⟨hkind, dot, word, hdot, hword, hlast⟩ := (namesFrom_of_qualifiedType? hfound).ends
          have hle := Cursor.ahead_le_of_next hdot
          have hle' := Cursor.ahead_le_of_next hword
          exact copies_foundName hkind (by omega) halike h
        | none =>
          generalize hq : qualifiedType? s (plainName w.cursor.current.text) v.cursor (v.cursor.size + 2) = q at halike
          cases halike with
          | none => exact copies_pure none h.pair
          -- A type that only the member completes is ruled out by the hypothesis.
          | ended hm hnext hf => exact absurd hf ((hname hm).not_atEnd h hword hspace hfound hq hnext)
          | tooDeep hloose position =>
            intro found u hrun
            cases hrun
            exact ⟨Nat.le_refl _, fun _ => .inl ⟨hloose, position, v, rfl⟩⟩
    · exact copies_pure none h.pair

/-- What follows the name of a type. -/
theorem copies_typeAccess (t : TypeDef) (position position' : Nat) (h : p.Twin w v) :
    p.Copies 1 0 (typeAccess s call t position) (typeAccess s call' t position') w v := by
  apply copies_look
  rw [h.kind_eq]
  split
  · apply copies_bind (copies_argumentList hcall h)
    intro q read u t' _ h
    exact copies_ofExcept (ok_of_agree (agree_construct s.registry t read trivial)) h
  · apply copies_past (copies_advance h).before
    intro q _ u t' _ h
    exact copies_memberAccess hcall t _ h
  · exact copies_fail

/-- Where a parenthesis at the edge follows, a member goes beyond the edge. -/
theorem copies_memberAccess_over (owner : TypeDef) (binding : Binding) {c d : Cursor} {y : Typer Operand}
    (hnext : w.cursor.next = .ok c) (hedge : p.edge c d) (hopen : c.current.kind = .openParen) :
    p.Copies 1 0 (memberAccess s call owner binding) y w v := by
  intro a u hrun
  obtain ⟨_, w₁, hrequire, hrest⟩ := eq_ok_of_bind hrun
  have hw₁ : w₁ = w := by
    rw [require, run_demand] at hrequire
    split at hrequire <;> cases hrequire
    rfl
  rw [hw₁] at hrest
  refine copies_over (p := p) (y := y) (v := v) (by omega) hnext hedge ?_ a u hrest
  intro u a s hu hrun
  change (if u.cursor.current.kind = .openParen then _ else _ : Typer Operand).run u = _ at hrun
  rw [hu, if_pos hopen] at hrun
  rw [← hu]
  have htwin : (self : Enclosure m exact).Twin u u := twin_self u
  exact (copies_afterName hcall owner binding _ _ w.cursor.current.start htwin a s hrun).1

/-- A name that is no keyword. -/
theorem copies_name (it : TypeDef) (hname : m = .member → NamesNothing s w v) (h : p.Twin w v) :
    p.Copies 1 0 (name s call it) (name s call' it) w v := by
  apply copies_look
  dsimp only
  rw [h.text_eq]
  -- The name of a type comes first; if there is none, the name is that of a member.
  apply copies_past (copies_typeName hname h).before
  intro q found u t _ h
  cases found with
  | some found => exact copies_typeAccess hcall found _ _ h
  | none =>
    unfold hasMember
    dsimp only
    split
    · exact copies_memberAccess hcall it _ h
    · apply copies_assoc
      apply copies_look
      apply copies_assoc
      apply copies_peekThen h
      intro c d hnext hplace
      rcases hplace with hplace | hplace
      · apply copies_unless
        · rw [(Prod.mk.inj (q.face_eq hplace)).1]
        · exact fun _ _ hrun => by cases hrun
        · exact fun _ => copies_memberAccess hcall it _ h
      -- At the edge stands no parenthesis, so that no call is seen there in the second text.
      · show q.Copies 1 0
          (if (c.current.kind == .openParen && (sequenceOperator? s it _).isSome) = true then _
            else fail _ >>= fun _ : Unit => _) _ u t
        split
        · rename_i hfound
          rw [Bool.and_eq_true, beq_iff_eq] at hfound
          exact copies_memberAccess_over hcall it .ofInstance hnext hplace hfound.1
        · exact copies_failThen

/-! ## §5. Keywords. -/

/-- The arguments of `iif`, in parentheses of their own. -/
theorem copies_choice (h : p.Twin w v) : p.Copies 1 0 (choice s call) (choice s call') w v := by
  apply copies_look
  apply copies_past (copies_advance h).before
  intro q _ u t _ h
  apply copies_bind (copies_argumentList hcall h)
  intro q read u t _ h
  split
  · apply copies_bind (copies_ofExcept (ok_of_agree (agree_requireBoolean _ trivial)) h)
    intro q _ u t _ h
    exact copies_ofExcept (ok_of_agree (agree_unify _ _ _ trivial)) h
  · exact copies_failAt

/-- Those of `np`. -/
theorem copies_nullPropagation (h : p.Twin w v) :
    p.Copies 1 0 (nullPropagation s call) (nullPropagation s call') w v := by
  apply copies_look
  apply copies_past (copies_advance h).before
  intro q _ u t _ h
  apply copies_bind (copies_argumentList hcall h)
  intro q read u t _ h
  split
  · exact copies_pure _ h
  · exact copies_ofExcept (ok_of_agree (agree_unify _ _ _ trivial)) h
  · exact copies_failAt

omit hcall in
/-- The name of a type after `new`, which has a bracket behind it. -/
theorem copies_createdName (h : p.Twin w v) : p.Copies 0 1 createdName createdName w v := by
  apply copies_look
  dsimp only
  rw [h.text_eq]
  apply copies_before (copies_advance h).before
  intro q _ u t _ h
  apply copies_before
  -- The words of the name, each behind a dot or a plus.
  · apply copies_loop_before _ _ h
    intro q name u t h
    apply copies_look
    rw [h.test_eq (Fragment.readsToken_isAny _)]
    split
    · apply copies_before (copies_advance h).before
      intro q _ u t _ h
      apply copies_requireThen h
      intro _
      apply copies_look
      rw [h.text_eq]
      exact copies_before (copies_advance h).before fun _ _ _ _ _ h => (copies_pure _ h.pair).before
    · exact (copies_pure _ h.pair).before
  -- A bracket has to follow, so the edge is not here.
  · intro q name u t _ h
    apply copies_look
    apply copies_unless (h.test_eq (Fragment.readsToken_isAny _))
    · exact fun _ _ hrun => by cases hrun
    · exact fun _ => (copies_pure name h.pair).before

omit hcall in
/-- The brackets of an array, which have a curly one behind them. -/
theorem copies_arrayMark (h : p.Twin w v) : p.Copies 0 1 arrayMark arrayMark w v := by
  apply copies_look
  rw [h.kind_eq]
  split
  · apply copies_before (copies_advance h).before
    intro q _ u t _ h
    apply copies_before (copies_expect (by decide) _ h).still.before
    intro q _ u t _ h
    apply copies_requireThen h
    intro _
    exact (copies_pure true h.pair).before
  · exact (copies_pure false h.pair).before

omit hcall in
/-- A comma, if there is one. -/
theorem copies_commaAfter (found : α) (h : p.Pair w v) :
    p.Copies 0 0 (commaAfter found) (commaAfter found) w v := by
  apply copies_choose (readsToken_kind _) (fun _ _ => kind_ne_of_edge (by decide)) h
  · intro q t h hcomma
    exact copies_bind (copies_advance_past h (Token.isFinish_of_kind hcomma (by decide))) fun _ _ _ _ _ h => copies_pure _ h
  · intro _
    exact copies_pure _ h

omit hcall in
theorem copies_addMember (members : List (String × Operand)) (position position' : Nat) (a : Operand)
    (name : Option String) (h : p.Pair w v) :
    p.Copies 0 0 (addMember members position a name) (addMember members position' a name) w v := by
  cases name with
  | none => exact copies_failAtThen
  | some name => exact copies_commaAfter _ h

omit hcall in
/-- The word before a name stands before the edge. -/
theorem copies_memberName {q : Enclosure .inner exact} (isArray dotted : Bool) (a : Operand)
    {f g : Option String → Typer β} (h : q.Pair w v)
    (hf : ∀ (q : Enclosure .inner exact) name u t, q.Pair u t → q.Copies 0 0 (f name) (g name) u t) :
    q.Copies 0 0 (memberName isArray dotted a f) (memberName isArray dotted a g) w v := by
  apply copies_look
  rw [h.test_eq (Fragment.readsToken_isWord _)]
  split
  · exact hf q _ w v h
  · split
    -- The word `as` is on the same token in both texts, since at the edge stands no word.
    · rename_i has
      have htwin : q.Twin w v := by
        rcases h.place with hplace | hplace
        · exact ⟨hplace, h.held_eq, h.depth_eq⟩
        · rw [← h.test_eq (Fragment.readsToken_isWord _)] at has
          exact absurd (Cursor.kind_of_isWord has) (kind_ne_of_edge (by decide) hplace)
      apply copies_bind (copies_advance htwin)
      intro q _ u t _ h
      exact copies_bind (copies_map (copies_aliasName_inner dotted h)) fun q name u t _ h => hf q name u t h
    · exact hf q _ w v h

/-- One member of what `new` makes; its brackets enclose it, whatever encloses the creation. -/
theorem copies_createdStep {q : Enclosure .inner exact} (isArray : Bool) (members : List (String × Operand))
    (h : q.Pair w v) :
    q.Copies 0 0 (createdStep s call isArray members) (createdStep s call' isArray members) w v := by
  apply copies_look
  rw [h.test_eq (Fragment.readsToken_isAny _)]
  split
  · exact copies_pure _ h
  · apply copies_look
    apply copies_bind (hcall.copies conditional q w v (by decide) h).still
    intro q a u t _ h
    exact copies_memberName isArray _ a h fun q name u t h => copies_addMember members _ _ a name h

/-- All of its members. -/
theorem copies_createdMembers (isArray : Bool) (h : p.Twin w v) :
    p.Copies 1 0 (createdMembers s call isArray) (createdMembers s call' isArray) w v := by
  apply copies_closed _ (fun _ _ hrun => (Course.follows_repeatStep
    (fun members u => follows_createdStep hcall.follows isArray members u) [] w).ok hrun) _ _ h
  · intro q h
    exact copies_repeatStep _ (fun q members u t h => copies_createdStep hcall isArray members h) h
  · intro members u a t hrun
    -- Nothing but a closing bracket passes the test.
    change (if u.cursor.isAny [.closeParen, .closeCurly] = true then _ else _ : Typer _).run u = _ at hrun
    by_cases hcloser : u.cursor.isAny [.closeParen, .closeCurly] = true
    · cases hkind : u.cursor.current.kind <;> simp_all [Cursor.isAny, TokenKind.isCloser]
    · rw [if_neg hcloser] at hrun
      cases hrun
  -- The closing bracket is looked at and gone past in both texts.
  · intro q members u t _ h
    apply copies_look
    apply copies_unless (h.test_eq (Fragment.readsToken_isAny _))
    · exact fun _ _ hrun => by cases hrun
    · intro hcloser
      have hfinish : u.cursor.current.isFinish = false :=
        Fragment.Rule.isFinish_of_test (fun _ => Fragment.isAny_finish (by decide)) hcloser
      exact copies_bind (copies_advance_past h hfinish) fun _ _ _ _ _ h => copies_pure members h

/-- From the opening bracket to the closing one. -/
theorem copies_createdBody (target : Option TypeDef) (position position' : Nat) (h : p.Twin w v) :
    p.Copies 1 0 (createdBody s call target position) (createdBody s call' target position') w v := by
  apply copies_past (copies_arrayMark h)
  intro q isArray u t _ h
  apply copies_past (copies_advance h).before
  intro q _ u t _ h
  apply copies_bind (copies_createdMembers hcall isArray h)
  intro q members u t _ h
  split
  · split
    · exact copies_pure _ h
    · apply copies_bind (copies_ofExcept (ok_of_agree (agree_unifyAll _ none _ trivial)) h)
      intro q element u t _ h
      cases element <;> exact copies_pure _ h
  · exact copies_pure _ h

/-- A creation has brackets of its own, so its last token is one of them. -/
theorem copies_creation (h : p.Twin w v) : p.Copies 1 0 (creation s call) (creation s call') w v := by
  apply copies_look
  apply copies_past (copies_advance h).before
  intro q _ u t _ h
  apply copies_look
  apply copies_unless (h.test_eq (Fragment.readsToken_isAny _))
  · exact fun _ _ hrun => by cases hrun
  · intro _
    apply copies_look
    rw [h.kind_eq]
    split
    · apply copies_look
      -- The name reads the same in both, so it means the same type.
      apply copies_past (copies_createdName h)
      intro q name u t _ h
      split
      · exact copies_failAt
      · apply copies_look
        rw [h.kind_eq]
        split
        · apply copies_bind (copies_argumentList hcall h)
          intro q read u t _ h
          exact copies_ofExcept (ok_of_agree (agree_construct _ _ read trivial)) h
        · exact copies_createdBody hcall _ _ _ h
    · exact copies_createdBody hcall none _ _ h

/-! ## §6. Words and literals. -/

/-- A word, by the first of the tables in which it is found. -/
theorem copies_word (hname : m = .member → OpensName w → NamesNothing s w v) (h : p.Twin w v)
    (hkind : w.cursor.current.kind = .identifier) : p.Copies 1 0 (word s call) (word s call') w v := by
  -- Most words are read alone, and the edge is not at an identifier.
  have hgo : ∀ a : Operand, p.Copies 1 0 (do advance; pure a : Typer Operand) (do advance; pure a) w v :=
    fun a => copies_bind (copies_advance_past h (Token.isFinish_of_kind hkind (by decide))) fun _ _ _ _ _ h =>
      copies_pure a h
  apply copies_scopesThen
  apply copies_look
  rw [h.held_eq, h.text_eq]
  dsimp only
  split
  · exact hgo _
  iterate 2
    cases w.held with
    | nil => exact copies_fail
    | cons scope outer => exact hgo _
  iterate 3 exact hgo _
  · exact copies_choice hcall h
  · exact copies_nullPropagation hcall h
  · exact copies_creation hcall h
  · split
    · exact hgo _
    -- A word that is neither a keyword nor a name in scope is the only one that may name a type.
    · rename_i hscope
      have hword : OpensName w := ⟨hkind, by simp_all [keywords], hscope⟩
      exact copies_name hcall _ (fun hm => hname hm hword) h

omit hcall in
/-- Literals in a row: neither the edge nor a member is one more. -/
theorem copies_adjacentLiterals (first : String) (h : p.Twin w v)
    (hkind : w.cursor.current.kind = .stringLiteral) :
    p.Copies 1 0 (adjacentLiterals first) (adjacentLiterals first) w v := by
  apply copies_bind (copies_advance_past h (Token.isFinish_of_kind hkind (by decide)))
  intro q _ u t _ h
  apply copies_repeatStep _ _ h
  intro q joined u t h
  apply copies_choose (i := Cursor.current) (P := fun token => token.kind = .stringLiteral)
    (readsToken_kind (· = .stringLiteral)) _ h
  · intro q t h hliteral
    rw [h.text_eq]
    exact copies_bind (copies_advance_past h (Token.isFinish_of_kind hliteral (by decide))) fun _ _ _ _ _ h =>
      copies_pure _ h
  · intro _
    exact copies_pure _ h
  · exact fun _ _ => kind_ne_of_edge (by decide)

omit hcall in
/-- A look past a question mark comes to the same token, or to the edge or beyond it; then it finds what
stands at the edge in the second text. -/
theorem copies_pastQuestion {past room : Nat} {f g : Cursor → Typer β} (h : p.Twin w v)
    (hf : ∀ c d, c.ahead ≤ w.cursor.ahead →
      (p.twin c d ∨ (∃ e, p.edge e d) ∧ c.ahead ≤ p.level) → p.Copies past room (f c) (g d) w v) :
    p.Copies past room
      (ofExcept w.cursor.next >>= fun c => pastQuestion c f)
      (ofExcept v.cursor.next >>= fun d => pastQuestion d g) w v := by
  unfold pastQuestion
  apply copies_ofExceptThen
  intro c hc
  obtain ⟨d, hd, hplace⟩ := p.next h.place hc
  have hle := Cursor.ahead_le_of_next hc
  refine ⟨d, hd, ?_⟩
  rcases hplace with hplace | hplace
  · rw [(Prod.mk.inj (p.face_eq hplace)).1]
    split
    · apply copies_ofExceptThen
      intro c' hc'
      obtain ⟨d', hd', hplace'⟩ := p.next hplace hc'
      have hle' := Cursor.ahead_le_of_next hc'
      refine ⟨d', hd', hf c' d' (by omega) ?_⟩
      exact hplace'.imp_right fun hedge => ⟨⟨c', hedge⟩, Nat.le_of_eq (p.ahead_eq hedge)⟩
    · exact hf c d hle (.inl hplace)
  -- At the edge the second text stands still, so a question mark is seen in the first one only.
  · have hlevel := p.ahead_eq hplace
    rw [if_neg (kind_ne_of_edge (by decide) hplace)]
    split
    · show p.Copies past room (ofExcept c.next >>= f) (ofExcept (.ok d) >>= g) w v
      apply copies_ofExceptThen
      intro c' hc'
      have hle' := Cursor.ahead_le_of_next hc'
      exact ⟨d, rfl, hf c' d (by omega) (.inr ⟨⟨c, hplace⟩, by omega⟩)⟩
    · exact hf c d hle (.inr ⟨⟨c, hplace⟩, by omega⟩)

/-- What a literal before a parenthesis makes. -/
theorem copies_construction (value : String) (place place' : Nat) (h : p.Twin w v) :
    p.Copies 1 0 (construction s call value place) (construction s call' value place') w v := by
  apply copies_bind (copies_argumentList hcall h)
  intro q read u t _ h
  split
  · exact copies_ofExcept (ok_of_agree (agree_construct _ _ read trivial)) h
  · exact copies_failAt

omit hcall in
/-- What the literals of a row stand for, joined. -/
theorem copies_joinedText {token token' : Token} (ht : SameToken unplaced token token') (h : p.Twin w v)
    (hkind : w.cursor.current.kind = .stringLiteral) :
    p.Copies 1 0 (joinedText s token) (joinedText s token') w v := by
  unfold joinedText
  rw [ht.text_eq]
  apply copies_bind (copies_adjacentLiterals _ h hkind)
  intro q joined u t _ h
  apply copies_bind (copies_ofExcept (ok_of_agree (Fragment.Rule.agree_value _ joined trivial)) h)
  exact fun _ _ _ _ _ h => copies_pure _ h

/-- What follows the looks behind a literal, which have come to the same token, or to the edge or beyond
it. -/
theorem copies_textRest {token token' : Token} {c d : Cursor} (ht : SameToken unplaced token token')
    (hle : c.ahead ≤ w.cursor.ahead) (hplace : p.twin c d ∨ (∃ e, p.edge e d) ∧ c.ahead ≤ p.level)
    (h : p.Twin w v) (hkind : w.cursor.current.kind = .stringLiteral) :
    p.Copies 1 0 (textRest s call token c) (textRest s call' token' d) w v := by
  rw [textRest_eq, textRest_eq, ht.text_eq]
  apply copies_ofExceptThen
  intro value hvalue
  refine ⟨value, ok_of_agree (Fragment.Rule.agree_value _ _ trivial) value hvalue, ?_⟩
  split
  -- A single character is the literal alone.
  · have hgo : p.Copies 1 0 (do advance; pure (.predefined Known.char) : Typer Operand)
        (do advance; pure (.predefined Known.char)) w v :=
      copies_bind (copies_advance_past h (Token.isFinish_of_kind hkind (by decide))) fun _ _ _ _ _ h => copies_pure _ h
    split
    · exact copies_failThen
    · exact hgo
  -- The look ahead is either at the same token in both texts, or beyond the edge in the first.
  · rcases hplace with hplace | ⟨⟨e, hedge⟩, hlevel⟩
    · rw [(Prod.mk.inj (p.face_eq hplace)).1]
      split
      · apply copies_editThen hle
        exact copies_construction hcall value _ _ ⟨hplace, h.held_eq, h.depth_eq⟩
      · exact copies_joinedText ht h hkind
    · rw [if_neg (kind_ne_of_edge (by decide) hedge)]
      split
      · -- The parenthesis is beyond the edge, and so is the whole list.
        have hpast : ∀ a u, (construction s call value token.start).run (w.moved c) = .ok a u →
            u.cursor.ahead + 1 ≤ c.ahead := fun a u hrun =>
          (copies_construction hcall value token.start token.start (p := (self : Enclosure m exact))
            (twin_self (w.moved c)) a u hrun).1
        exact copies_beyond hpast hle hlevel
      · exact copies_joinedText ht h hkind

/-- A literal, by itself, in a row or before a parenthesis. -/
theorem copies_text (h : p.Twin w v) (hkind : w.cursor.current.kind = .stringLiteral) :
    p.Copies 1 0 (text s call) (text s call') w v := by
  rw [text_eq, text_eq]
  apply copies_look
  apply copies_pastQuestion h
  intro c d hle hplace
  exact copies_textRest hcall (sameToken_of_face (p.face_eq h.place)) hle hplace h hkind

omit hcall in
/-- A number is one token. -/
theorem copies_number (typeOf? : String → Option String) (form : Form) (invalid : String → Cause)
    (h : p.Twin w v) (hfinish : w.cursor.current.isFinish = false) :
    p.Copies 1 0 (number typeOf? form invalid) (number typeOf? form invalid) w v := by
  apply copies_look
  rw [h.text_eq]
  split
  · exact copies_fail
  · exact copies_bind (copies_advance_past h hfinish) fun _ _ _ _ _ h => copies_pure _ h

/-- **The parts of an operand**, up to a closing bracket or before a member. -/
theorem copies_primary (hname : m = .member → OpensName w → NamesNothing s w v) (h : p.Twin w v) :
    p.Copies 1 0 (primary s call) (primary s call') w v := by
  apply copies_look
  rw [h.kind_eq]
  split
  · rename_i hkind
    exact copies_word hcall hname h hkind
  · rename_i hkind
    exact copies_text hcall h hkind
  · rename_i hkind
    exact copies_number _ _ _ h (Token.isFinish_of_kind hkind (by decide))
  · rename_i hkind
    exact copies_number _ _ _ h (Token.isFinish_of_kind hkind (by decide))
  · apply copies_past (copies_advance h).before
    intro q _ u t _ h
    -- What stands in parentheses ends at the closing one, which both texts have.
    apply copies_closed _ (fun _ _ hrun => (hcall.follows conditional u).ok hrun)
      (fun _ _ _ _ => isCloser_of_expectThen rfl) _ h
    · exact fun _ h => (hcall.copies conditional _ _ _ (by decide) h).still
    · intro q inner u t _ h
      exact copies_bind (copies_expect (by decide) _ h) fun _ _ _ _ _ h => copies_pure inner h
  · exact copies_fail

/-- One thing more that is attached to an operand. -/
theorem copies_attachedStep (a : Operand) (htakes : operand.goesOn w.cursor = true) (h : p.Twin w v) :
    p.Copies 1 0 (attachedStep s call a) (attachedStep s call' a) w v := by
  have htakes : w.cursor.current.kind = .dot ∨ w.cursor.current.kind = .propagate ∨
      w.cursor.current.kind = .openBracket := by simpa [goesOn, Cursor.isAny] using htakes
  apply copies_look
  rw [h.kind_eq]
  rcases htakes with hkind | hkind | hkind <;> rw [hkind]
  · apply copies_past (copies_advance h).before
    intro q _ u t _ h
    exact copies_bind (copies_memberAccess hcall _ _ h) fun _ _ _ _ _ h => copies_pure _ h
  · exact copies_of_fails fun _ _ hrun => by cases hrun
  · exact copies_bind (copies_elementAccess hcall _ h) fun _ _ _ _ _ h => copies_pure _ h

omit hcall in
/-- Nothing more is attached to an operand that has come to its end. -/
theorem run_attachedStep_of_stop (a : Operand) (hstop : operand.goesOn w.cursor = false) :
    (attachedStep s call a).run w = .ok (false, a) w := by
  have hstop : ¬ w.cursor.current.kind = .dot ∧ ¬ w.cursor.current.kind = .propagate ∧
      ¬ w.cursor.current.kind = .openBracket := by simpa [goesOn, Cursor.isAny] using hstop
  obtain ⟨hdot, hpropagate, hbracket⟩ := hstop
  have hkind : ∀ g : TokenKind → Typer (Bool × Operand), (kind >>= g).run w = (g w.cursor.current.kind).run w :=
    fun _ => rfl
  unfold attachedStep
  rw [hkind]
  split
  · exact absurd ‹_› hdot
  · exact absurd ‹_› hpropagate
  · exact absurd ‹_› hbracket
  · rfl

/-- What is attached to an operand; where a member follows it would be attached too. -/
theorem copies_attached (hm : m ≠ .member) (a : Operand) (h : p.Pair w v) :
    p.Copies 0 0 (attached s call a) (attached s call' a) w v := by
  apply copies_repeatStep a _ h
  intro q a u t h
  cases htakes : operand.goesOn u.cursor with
  | true =>
    apply Copies.still
    apply copies_of_twin (by omega) _ h
    exact fun q t h => copies_attachedStep hcall a htakes h
  | false =>
    have htakes' : operand.goesOn t.cursor = false := by
      rcases h.place with hplace | hplace
      · have htwin : q.Twin u t := ⟨hplace, h.held_eq, h.depth_eq⟩
        rw [← htakes]
        exact htwin.test_eq (Fragment.readsToken_isAny _)
      · exact goesOn_closer operand (q.closes hm hplace)
    intro next z hrun
    cases (run_attachedStep_of_stop a htakes).symm.trans hrun
    exact ⟨Nat.le_refl _, fun _ => .inr ⟨t, run_attachedStep_of_stop a htakes', h⟩⟩

/-! ## §7. Operators. -/

omit hcall in
/-- Whether a rule goes on is told by the kind and the wording of the token. -/
theorem readsToken_goesOn (r : Rule) : Fragment.ReadsToken r.goesOn := by
  intro c d hkind htext
  cases r <;> simp only [goesOn, hkind, Fragment.readsToken_isOneOf _ _ c d hkind htext,
    Fragment.readsToken_isWord _ c d hkind htext, Fragment.readsToken_isAny _ c d hkind htext]

/-- Operands with operators between them. -/
theorem copies_chain (hm : m ≠ .member) (r rule : Rule) (h : p.Pair w v) :
    p.Copies 1 0 (chain s call rule r.goesOn) (chain s call' rule r.goesOn) w v := by
  apply copies_bind (hcall.copies rule p w v hm h)
  intro q first u t _ h
  apply copies_repeatStep first _ h
  -- In each round both texts have the operator, or neither goes on with it.
  intro q left u t h
  apply copies_choose (i := id) (P := fun c => r.goesOn c = true) _ _ h
  · intro q t h _
    have htoken : SameToken unplaced u.cursor.current t.cursor.current := sameToken_of_face (q.face_eq h.place)
    apply copies_look
    apply copies_past (copies_advance h).before
    intro q _ u t _ h
    apply copies_bind (hcall.copies rule q u t hm h.pair)
    intro q right u t _ h
    dsimp only [id]
    rw [htoken.kind_eq]
    apply copies_bind (copies_ofExcept (ok_of_agree (agree_operate _ _ htoken left right)) h)
    exact fun _ _ _ _ _ h => copies_pure _ h
  · intro _
    exact copies_pure _ h
  · intro c d hkind htext
    simp only [readsToken_goesOn r c d hkind htext, id]
  -- At the edge a closing bracket follows, which is no operator.
  · intro c d hedge
    rw [id, goesOn_closer r (q.closes hm hedge)]
    decide

/-- The list of a containment, in parentheses of its own. -/
theorem copies_containerList (hm : m ≠ .member) {operator operator' : Token}
    (ht : SameToken unplaced operator operator') (left : Operand) (h : p.Twin w v) :
    p.Copies 1 0 (containerList s call operator left) (containerList s call' operator' left) w v := by
  apply copies_past
  -- The rounds of the list stay before its parenthesis, so the edge is not among them.
  · apply copies_loop_before _ _ h
    intro q _ u t h
    apply copies_before (copies_advance h).before
    intro q _ u t _ h
    apply copies_before (hcall.copies unary q u t hm h.pair).still.before
    intro q element u t _ h
    apply copies_before (copies_ofExcept (ok_of_agree (agree_contained _ ht left element)) h.pair).before
    intro q _ u t _ h
    apply copies_look
    rw [h.kind_eq]
    split
    · exact (copies_pure _ h.pair).before
    · exact (copies_pure _ h.pair).before
    · exact copies_failAt
    · exact copies_fail
  · intro q _ u t hrun h
    -- A list ends at its parenthesis, which the advance takes.
    obtain ⟨_, _, hlast⟩ := last_round hrun
    have hclose : u.cursor.current.kind = .closeParen := kind_of_elementStep s call hlast
    exact copies_advance_past h (Token.isFinish_of_kind hclose (by decide))

/-- The right side of a containment. -/
theorem copies_contained (hm : m ≠ .member) {operator operator' : Token} (ht : SameToken unplaced operator operator')
    (left : Operand) (h : p.Twin w v) :
    p.Copies 1 0 (contained s call operator left) (contained s call' operator' left) w v := by
  apply copies_look
  rw [h.kind_eq]
  split
  · exact copies_containerList hcall hm ht left h
  · apply copies_bind (hcall.copies operand p w v hm h.pair)
    intro q sequence u t _ h
    split
    · exact copies_failAt
    · exact copies_ofExcept (ok_of_agree (agree_contained _ ht left _)) h
  · exact copies_failAt

omit hcall in
/-- The operator of a containment is one token, or two of which the second one is `in`. -/
theorem copies_pastOperator (isNegated : Bool) (position position' : Nat) {x y : Typer Unit}
    (hx : ∀ (q : Enclosure m exact) u t, q.Twin u t → q.Copies 1 0 x y u t) (h : p.Twin w v) :
    p.Copies 1 0 (pastOperator isNegated position x) (pastOperator isNegated position' y) w v := by
  have hlast : ∀ (q : Enclosure m exact) u t, q.Twin u t →
      q.Copies 1 0 (advance >>= fun _ => x) (advance >>= fun _ => y) u t :=
    fun q u t h => copies_past (copies_advance h).before fun q _ u t _ h => hx q u t h
  unfold pastOperator
  split
  · apply copies_past (copies_advance h).before
    intro q _ u t _ h
    apply copies_look
    apply copies_unless (h.test_eq (Fragment.readsToken_isWord _))
    · exact fun _ _ hrun => by cases hrun
    · exact fun _ => hlast q u t h
  · exact hlast p w v h

/-- An operator of containment and its right side. -/
theorem copies_container (hm : m ≠ .member) (left : Operand) (h : p.Twin w v) :
    p.Copies 1 0 (container s call left) (container s call' left) w v := by
  have ht : SameToken unplaced w.cursor.current v.cursor.current := sameToken_of_face (p.face_eq h.place)
  rw [container_eq, container_eq]
  apply copies_look
  rw [ht.text_eq, ht.kind_eq]
  exact copies_pastOperator _ _ _ (fun q u t h => copies_contained hcall hm ht left h) h

/-- Containments, one after the other. -/
theorem copies_containment (hm : m ≠ .member) (h : p.Pair w v) :
    p.Copies 1 0 (body s call containment) (body s call' containment) w v := by
  apply copies_bind (hcall.copies bitwise p w v hm h)
  intro q first u t _ h
  apply copies_repeatStep first _ h
  intro q left u t h
  apply copies_choose (i := id) (P := fun c => c.isOneOf ["in", "not_in", "not"] [.exclamation] = true) _ _ h
  · intro q t h _
    exact copies_bind (copies_container hcall hm left h) fun _ _ _ _ _ h => copies_pure _ h
  · intro _
    exact copies_pure _ h
  · intro c d hkind htext
    simp only [Fragment.readsToken_isOneOf _ _ c d hkind htext, id]
  · intro c d hedge
    rw [show id d = d from rfl, show d.isOneOf ["in", "not_in", "not"] [.exclamation] = false from
      goesOn_closer containment (q.closes hm hedge)]
    decide

/-- An operand with operators before it. -/
theorem copies_unary (hm : m ≠ .member) (h : p.Pair w v) :
    p.Copies 1 0 (body s call unary) (body s call' unary) w v := by
  apply copies_nested h.depth_eq
  have hdeeper : p.Pair w.deeper v.deeper := h.deeper
  -- A rule that begins at the edge would read nothing, so both stand at the same token.
  apply copies_of_twin (by omega) _ hdeeper
  intro q t h
  apply copies_look
  apply copies_look
  rw [h.test_eq (Fragment.readsToken_isAny _), h.test_eq (Fragment.readsToken_isWord _)]
  split
  · have htoken : SameToken unplaced w.deeper.cursor.current t.cursor.current :=
      sameToken_of_face (q.face_eq h.place)
    apply copies_look
    apply copies_past (copies_advance h).before
    intro q _ u t' _ h
    apply copies_look
    simp only [htoken.kind_eq, h.kind_eq]
    split
    -- The minus is folded into the number in both texts.
    · apply copies_editThen (Nat.le_refl _)
      apply hcall.copies operand _ _ _ hm
      exact ⟨.inl (q.replace h.place rfl (by simp [Token.negated, Token.face, h.kind_eq, h.text_eq])), h.held_eq,
        h.depth_eq⟩
    · apply copies_bind (hcall.copies unary q u t' hm h.pair)
      intro q a u t _ h
      exact copies_ofExcept (ok_of_agree (agree_operateUnary htoken a)) h
  · exact hcall.copies operand q _ t hm h.pair

/-! ## §8. Every rule. -/

/-- A condition and its branches. -/
theorem copies_conditional (hm : m ≠ .member) (h : p.Pair w v) :
    p.Copies 1 0 (body s call .conditional) (body s call' .conditional) w v := by
  apply copies_nested h.depth_eq
  apply copies_look
  apply copies_bind (hcall.copies coalescing p _ _ hm h.deeper)
  intro q test u t _ h
  -- Both texts have the question mark here, or neither has.
  apply copies_choose (readsToken_kind _) _ h
  · intro q t h _
    apply copies_past (copies_ofExcept (ok_of_agree (agree_requireBoolean test trivial)) h.pair).before
    intro q _ u t _ h
    apply copies_look
    apply copies_past (copies_advance h).before
    intro q _ u t _ h
    apply copies_past (hcall.copies conditional q u t hm h.pair).still.before
    intro q a u t _ h
    apply copies_past (copies_expect (by decide) _ h).still.before
    intro q _ u t _ h
    apply copies_bind (hcall.copies conditional q u t hm h.pair)
    intro q b u t _ h
    exact copies_ofExcept (ok_of_agree (agree_unify _ a b trivial)) h
  · intro _
    exact copies_pure test h
  · exact fun _ _ => kind_ne_of_edge (by decide)

/-- What may stand behind `??`. -/
theorem copies_coalescing (hm : m ≠ .member) (h : p.Pair w v) :
    p.Copies 1 0 (body s call .coalescing) (body s call' .coalescing) w v := by
  apply copies_bind (hcall.copies projection p w v hm h)
  intro q left u t _ h
  -- Both texts have the operator here, or neither has.
  apply copies_choose (readsToken_kind _) _ h
  · intro q t h _
    have htoken : SameToken unplaced u.cursor.current t.cursor.current := sameToken_of_face (q.face_eq h.place)
    apply copies_look
    apply copies_past (copies_advance h).before
    intro q _ u t _ h
    apply copies_bind (hcall.copies conditional q u t hm h.pair)
    intro q right u t _ h
    repeat' split
    · exact copies_pure _ h
    · exact copies_pure _ h
    · exact copies_pure _ h
    · exact copies_ofExcept (ok_of_agree (agree_incompatible htoken left right)) h
  · intro _
    exact copies_pure left h
  · exact fun _ _ => kind_ne_of_edge (by decide)

/-- What may stand behind an arrow. -/
theorem copies_projection (hm : m ≠ .member) (h : p.Pair w v) :
    p.Copies 1 0 (body s call .projection) (body s call' .projection) w v := by
  apply copies_bind (hcall.copies disjunction p w v hm h)
  intro q left u t _ h
  apply copies_choose (readsToken_kind _) _ h
  · exact fun _ _ _ _ => copies_failThen
  · intro _
    exact copies_pure left h
  · exact fun _ _ => kind_ne_of_edge (by decide)

/-- **Every body is copied if its calls are.** -/
theorem copies_body (hm : m ≠ .member) (r : Rule) (h : p.Pair w v) :
    p.Copies 1 0 (body s call r) (body s call' r) w v := by
  -- One case for each rule; the chains differ in their operators alone.
  cases r with
  | conditional => exact copies_conditional hcall hm h
  | coalescing => exact copies_coalescing hcall hm h
  | projection => exact copies_projection hcall hm h
  | disjunction => exact copies_chain hcall hm disjunction conjunction h
  | conjunction => exact copies_chain hcall hm conjunction containment h
  | containment => exact copies_containment hcall hm h
  | bitwise => exact copies_chain hcall hm bitwise comparison h
  | comparison => exact copies_chain hcall hm comparison shift h
  | shift => exact copies_chain hcall hm shift sum h
  | sum => exact copies_chain hcall hm sum product h
  | product => exact copies_chain hcall hm product unary h
  | unary => exact copies_unary hcall hm h
  | operand =>
    apply copies_of_twin (by omega) _ h
    intro q t h
    exact copies_bind (copies_primary hcall (fun hmember => absurd hmember hm) h) fun _ first _ _ _ h =>
      copies_attached hcall hm first h

end

/-- **Every rule comes to the same up to a closing bracket**, with any two budgets unless the enclosure is
exact. -/
theorem copies_run (s : Setting) (hm : m ≠ .member) {k k' : Nat} (hk : exact = true → k ≤ k') (r : Rule)
    (h : p.Pair w v) : p.Copies 1 0 (run s k r) (run s k' r) w v := by
  induction k generalizing m k' r p w v with
  | zero => exact copies_fail
  | succ k ih =>
    have hsucc : ∀ k', (exact = true → k ≤ k') → p.Copies 1 0 (run s (k + 1) r) (run s (k' + 1) r) w v :=
      fun k' hk => copies_body ⟨fun r _ _ _ hm h => ih hm hk r h, follows_run onwardCourse s k⟩ hm r h
    cases k' with
    | zero =>
      have hloose : exact = false := Bool.eq_false_iff.2 fun hexact => Nat.not_succ_le_zero k (hk hexact)
      intro a u hrun
      exact ⟨(hsucc k (fun _ => Nat.le_refl k) a u hrun).1, fun _ => .inl ⟨hloose, _, v, rfl⟩⟩
    | succ k' => exact hsucc k' fun hexact => Nat.le_of_succ_le_succ (hk hexact)

/-- Every rule takes a token. -/
theorem ahead_lt_of_run {k : Nat} {r : Rule} {a : Operand} {u : ScopedWalk} (hrun : (run s k r).run w = .ok a u) :
    u.cursor.ahead < w.cursor.ahead := by
  have htwin : (self : Enclosure .bracket true).Twin w w := twin_self w
  exact (copies_run s (by decide) (fun _ => Nat.le_refl k) r htwin.pair a u hrun).1

/-- **So is every rule**, with a budget that is no smaller where outcomes are to be the same. -/
theorem copiesCalls_run (s : Setting) {k k' : Nat} (hk : exact = true → k ≤ k') :
    CopiesCalls exact (run s k) (run s k') :=
  ⟨fun r _ _ _ hm h => copies_run s hm hk r h, follows_run onwardCourse s k⟩

end Rule

end TypeAhead.Typing
