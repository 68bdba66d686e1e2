/-
  TypeAhead.Proofs.Typing.EveryRule — EVERY RULE OF TYPING FOLLOWS ITS COURSE.

  The grammar, part by part: each part follows a course if the rules that it calls
  do, and so all rules do with any budget.  Brackets are opened and closed in seven
  places, and only in the members of what `new` makes may a bracket be closed by
  one of another kind.

      follows_creation    `new` with what it makes
      follows_body        the bodies of all rules, given their calls
      follows_run         every rule, with every budget
-/
import TypeAhead.Proofs.Typing.Course
import TypeAhead.Proofs.Typing.Parts

namespace TypeAhead.Typing.Rule

open Walker Course

variable {α β : Type} {p : Course} {s : Setting} {call : Rule → Typer Operand} {w v : ScopedWalk}

/-- The calls of a body follow the course. -/
def FollowCalls (p : Course) (call : Rule → Typer Operand) : Prop := ∀ r w, p.Follows (call r) w

/-! ## §1. Arguments. -/

/-- A discarded argument is two words. -/
theorem follows_argument (hcall : FollowCalls p call) (w : ScopedWalk) : p.Follows (argument call) w := by
  refine follows_bind (follows_discardedOut w) fun found v _ => ?_
  split
  · exact follows_pure _
  · exact hcall conditional v

/-- Arguments with commas between them. -/
theorem follows_arguments (hcall : FollowCalls p call) (w : ScopedWalk) :
    p.Follows (arguments call) w := by
  refine follows_bind (follows_argument hcall w) fun _ v _ => follows_repeatStep (fun read v => ?_) _ v
  refine follows_look ?_
  split
  · rename_i hcomma
    refine follows_bind (follows_advance_of_kind hcomma rfl) fun _ v _ => ?_
    exact follows_bind (follows_argument hcall v) fun _ _ _ => follows_pure _
  · exact follows_pure _

/-- Parentheses, and what is read in them. -/
theorem follows_inParentheses {inner : Typer (List Operand)} {f : List Operand → Typer β}
    (hinner : ∀ v, p.Follows inner v) (hf : ∀ read v, p.Follows (f read) v) (w : ScopedWalk) :
    p.Follows (inParentheses inner f) w := by
  refine (ensures_expect_open _ _ w).bind fun _ v hv => ?_
  have hstage := stage_openedBy (p := p) .openParen w
  have hrest : ∀ (read : List Operand) (u), p.OpenedBy .openParen w u →
      Ensures (do
        expect .closeParen .closeParenOrCommaExpected
        f read) u (p.during w) (fun _ t => p.past w t) fun _ t => p.failed w t :=
    fun read u hu => ensures_close_then hu rfl _ (hf read)
  refine (hstage.run hv (follows_ofLook _)).bind fun kind u hu => ?_
  dsimp only
  split
  · exact (hstage.run hu (follows_pure _)).bind hrest
  · exact (hstage.run hu (hinner u)).bind hrest

theorem follows_argumentList (hcall : FollowCalls p call) (w : ScopedWalk) :
    p.Follows (argumentList call) w :=
  follows_inParentheses (follows_arguments hcall) (fun _ _ => follows_pure _) w

/-! ## §2. Members. -/

/-- A name before the body of a sequence operator opens no scope. -/
theorem ensures_bodyParameter (w : ScopedWalk) :
    Ensures bodyParameter w (p.during w) (fun _ v => p.past w v ∧ v.held = w.held)
      fun _ v => p.failed w v := by
  -- Where there is no name and arrow, the walk has not moved.
  have hstay : ∀ name : Option String, Ensures (pure name : Typer (Option String)) w (p.during w)
      (fun _ v => p.past w v ∧ v.held = w.held) fun _ v => p.failed w v :=
    fun name => .pure (p.during_self w) ⟨p.past_self w, rfl⟩
  refine .lookThen (p.during_self w) ?_
  dsimp only [id]
  split
  · rename_i hword
    refine .ofExceptThen (p.during_self w) (fun _ _ => p.failed_self w) fun next hpeek => ?_
    split
    · rename_i harrow
      -- The first step arrives at the token that was looked at.
      have hfirst : Ensures (advance : Typer Unit) w (p.during w)
          (fun _ v => p.past w v ∧ v.held = w.held ∧ v.cursor.current = next)
          fun _ v => p.failed w v := by
        refine ensures_advance (p.during_self w) (p.failed_self w) fun c hnext => ?_
        have hpast := p.past_next (p.plain_of_kind (by rw [hword]; rfl)) hnext
        refine ⟨p.during_of_past hpast (p.during_self _), hpast, rfl, ?_⟩
        simpa [Cursor.peek, hnext, Except.map] using hpeek
      refine hfirst.bind fun _ v hv => ?_
      obtain ⟨hpast, hheld, rfl⟩ := hv
      -- The second step goes past the arrow.
      have hsecond : Ensures (advance : Typer Unit) v (p.during w)
          (fun _ u => p.past w u ∧ u.held = w.held) fun _ u => p.failed w u := by
        refine ensures_advance ((stage_past w).here hpast) ((stage_past w).stopped hpast) fun c hnext => ?_
        have hnext := p.past_trans hpast (p.past_next (p.plain_of_kind (harrow ▸ rfl)) hnext)
        exact ⟨p.during_of_past hnext (p.during_self _), hnext, hheld⟩
      exact hsecond.bind fun _ u hu => .pure ((stage_past w).here hu.1) hu
    · exact hstay none
  · exact hstay none

/-- A body opens the scope of an element and closes it again. -/
theorem follows_sequenceBody (hcall : FollowCalls p call) (element : TypeDef) (w : ScopedWalk) :
    p.Follows (sequenceBody call element) w := by
  refine follows_scopes ?_
  dsimp only
  split
  · exact follows_stopThen _
  · rename_i hroom
    refine (ensures_bodyParameter w).bind fun parameter v hv => (stage_past w).run hv.1 ?_
    refine follows_inScope _ ?_ (hcall conditional)
    rw [hv.2]
    exact Nat.lt_of_not_le hroom

/-- An operator of sequences is called with a body or with arguments. -/
theorem follows_calledWith (hcall : FollowCalls p call) (o : SequenceOperator) (element : TypeDef)
    (w : ScopedWalk) : p.Follows (calledWith call o element) w := by
  unfold calledWith
  split
  · exact follows_map (follows_sequenceBody hcall element w)
  · exact follows_arguments hcall w

/-- The call of an operator of sequences. -/
theorem follows_sequenceCall (hcall : FollowCalls p call) (o : SequenceOperator) (element : TypeDef)
    (name : String) (w : ScopedWalk) : p.Follows (sequenceCall s call o element name) w := by
  rw [sequenceCall_eq]
  exact follows_look (follows_inParentheses (follows_calledWith hcall o element)
    (fun _ _ => follows_ofExcept _) w)

/-- What the type of a member is, is looked up. -/
theorem follows_mentioned (name : String) (position : Nat) (w : ScopedWalk) :
    p.Follows (mentioned s name position) w := by
  unfold mentioned
  split
  · exact follows_pure _
  · exact follows_failAt _ _

/-- The call of a method, by its arguments. -/
theorem follows_methodCall (hcall : FollowCalls p call) (owner : TypeDef) (methods : List Method)
    (name : String) (position : Nat) (w : ScopedWalk) :
    p.Follows (methodCall s call owner methods name position) w := by
  refine follows_bind (follows_argumentList hcall w) fun read v _ => ?_
  split
  · exact follows_map (follows_mentioned _ _ v)
  · exact follows_failAt _ _

/-- A member, whatever it comes to. -/
theorem follows_memberAccess (hcall : FollowCalls p call) (owner : TypeDef) (binding : Binding)
    (w : ScopedWalk) : p.Follows (memberAccess s call owner binding) w := by
  refine follows_requireThen fun hword => follows_look ?_
  refine follows_bind (follows_advance_of_kind hword rfl) fun _ v _ => follows_look ?_
  split
  · dsimp only
    split
    · exact follows_sequenceCall hcall _ _ _ v
    · exact follows_methodCall hcall owner _ _ _ v
  · split
    · exact follows_bind (follows_mentioned _ _ v) fun _ _ _ => follows_pure _
    · exact follows_failAt _ _

/-- Indices between brackets. -/
theorem follows_elementAccess (hcall : FollowCalls p call) (owner : TypeDef) (w : ScopedWalk) :
    p.Follows (elementAccess s call owner) w := by
  refine follows_look ?_
  refine (ensures_expect_open _ _ w).bind fun _ v hv => ?_
  refine ((stage_openedBy .openBracket w).run hv (follows_arguments hcall v)).bind fun read u hu => ?_
  refine ensures_close_then hu rfl _ fun t => ?_
  dsimp only
  split
  · exact follows_map (follows_mentioned _ _ t)
  · exact follows_failAt _ _

/-! ## §3. Names of types. -/

/-- The name of a type that is found ahead ends in a word, and nothing but words and dots is before
it. -/
theorem past_of_namesFrom {qualified : String} {t : TypeDef} {last c : Cursor}
    (h : NamesFrom s qualified c t last) (hc : p.past w (w.moved c)) (hplain : p.plain c.current) :
    p.past w (w.moved last) ∧ last.current.kind = .identifier := by
  -- One joint and one word behind a place that the walk has come to.
  have hstep : ∀ {c dot word : Cursor}, p.past w (w.moved c) → p.plain c.current → c.next = .ok dot →
      (dot.current.kind = .dot ∨ dot.current.kind = .plus) → dot.next = .ok word →
      p.past w (w.moved word) := by
    intro c dot word hc hplain hdot hjoint hword
    have hneutral : dot.current.kind.isNeutral = true := by
      rcases hjoint with hkind | hkind <;> rw [hkind] <;> rfl
    have hdot : p.past w (w.moved dot) := p.past_trans hc (p.past_next (w := w.moved c) hplain hdot)
    exact p.past_trans hdot (p.past_next (w := w.moved dot) (p.plain_of_kind hneutral) hword)
  induction h with
  | last hdot hjoint hword hname _ => exact ⟨hstep hc hplain hdot hjoint hword, hname⟩
  | again hdot hjoint hword hname _ ih =>
    exact ih (hstep hc hplain hdot hjoint hword) (p.plain_of_kind (hname ▸ rfl))

/-- To look for the name of a type passes over words, dots and pluses. -/
theorem follows_typeName (hword : p.plain w.cursor.current) : p.Follows (typeName s) w := by
  refine follows_look ?_
  dsimp only [id]
  split
  · exact follows_bind (follows_advance hword) fun _ _ _ => follows_pure _
  · split
    · refine follows_ofExceptThen fun found hfound => ?_
      cases found with
      | none => exact follows_pure _
      | some found =>
        obtain ⟨hpast, hkind⟩ := past_of_namesFrom (namesFrom_of_qualifiedType? hfound) (p.past_self w) hword
        refine follows_editThen hpast ?_
        exact follows_bind (follows_advance_of_kind hkind rfl) fun _ _ _ => follows_pure _
    · exact follows_pure _

/-- What may follow the name of a type. -/
theorem follows_typeAccess (hcall : FollowCalls p call) (t : TypeDef) (position : Nat) (w : ScopedWalk) :
    p.Follows (typeAccess s call t position) w := by
  refine follows_look ?_
  split
  · exact follows_bind (follows_argumentList hcall w) fun _ _ _ => follows_ofExcept _
  · rename_i hdot
    exact follows_bind (follows_advance_of_kind hdot rfl) fun _ v _ => follows_memberAccess hcall t _ v
  · exact follows_fail _

/-- Whether there is a member is looked up. -/
theorem follows_hasMember (t : TypeDef) (name : String) (w : ScopedWalk) :
    p.Follows (hasMember s t name) w := by
  unfold hasMember
  dsimp only
  split
  · exact follows_pure _
  · exact follows_look (follows_ofExceptThen fun _ _ => follows_pure _)

/-! ## §4. Keywords. -/

/-- The three arguments of `iif`. -/
theorem follows_choice (hcall : FollowCalls p call) (hword : p.plain w.cursor.current) :
    p.Follows (choice s call) w := by
  refine follows_look (follows_bind (follows_advance hword) fun _ v _ => ?_)
  refine follows_bind (follows_argumentList hcall v) fun read u _ => ?_
  split
  · exact follows_bind (follows_ofExcept _) fun _ _ _ => follows_ofExcept _
  · exact follows_failAt _ _

/-- The arguments of `np`. -/
theorem follows_nullPropagation (hcall : FollowCalls p call) (hword : p.plain w.cursor.current) :
    p.Follows (nullPropagation s call) w := by
  refine follows_look (follows_bind (follows_advance hword) fun _ v _ => ?_)
  refine follows_bind (follows_argumentList hcall v) fun read u _ => ?_
  split
  · exact follows_pure _
  · exact follows_ofExcept _
  · exact follows_failAt _ _

/-! ## §5. What `new` makes. -/

/-- The walk is past the word `new` and part of the name of a type, or of nothing. -/
structure Naming (p : Course) (w : ScopedWalk) (c : Cursor) (v : ScopedWalk) : Prop where
  creates : p.creates w.cursor.current
  next : w.cursor.next = .ok c
  named : p.named (w.moved c) v

section

variable {c : Cursor} {u : ScopedWalk}

/-- What holds during the rest holds during the whole creation. -/
theorem Naming.during (h : Naming p w c v) (hu : p.during v u) : p.during w u :=
  p.during_of_moved (p.during_of_past (p.past_of_named h.named) hu)

/-- A failure further on is one of the creation. -/
theorem Naming.failed (h : Naming p w c v) (hu : p.failed v u) : p.failed w u :=
  p.failed_of_moved (p.failed_of_past (p.past_of_named h.named) hu)

/-- Where the name has been read, the creation is under way. -/
theorem Naming.here (h : Naming p w c v) : p.during w v := h.during (p.during_self v)

/-- It may fail there. -/
theorem Naming.stopped (h : Naming p w c v) : p.failed w v := h.failed (p.failed_self v)

/-- It may be over there. -/
theorem Naming.past (h : Naming p w c v) (hword : p.plain w.cursor.current) : p.past w v :=
  p.past_trans (p.past_next hword h.next) (p.past_of_named h.named)

/-- One more part of the name. -/
theorem Naming.advance (h : Naming p w c v) (hkind : v.cursor.current.kind.isNamePart = true) :
    Ensures (advance : Typer Unit) v (p.during w) (fun _ u => Naming p w c u) fun _ u => p.failed w u := by
  refine ensures_advance h.here h.stopped fun d hnext => ?_
  have hnaming : Naming p w c (v.moved d) := ⟨h.creates, h.next, p.named_next h.named hkind hnext⟩
  exact ⟨hnaming.here, hnaming⟩

/-- The walk is between the brackets of the members, which follow the name of the type and the mark
of an array. -/
def AmongMembers (p : Course) (w v : ScopedWalk) : Prop :=
  ∃ c u m d, Naming p w c u ∧ Marked u m ∧ OpensMembers m.cursor ∧ m.cursor.next = .ok d ∧
    p.past (m.moved d) v

/-- Among the members of a creation the walk is at a stage of it. -/
theorem stage_amongMembers (w : ScopedWalk) : p.Stage w (AmongMembers p w) where
  past := by
    rintro v u ⟨c, n, m, d, hnaming, hmarked, hopens, hnext, hpast⟩ hu
    exact ⟨c, n, m, d, hnaming, hmarked, hopens, hnext, p.past_trans hpast hu⟩
  during := by
    rintro v u ⟨c, n, m, d, hnaming, hmarked, -, -, hpast⟩ hu
    have hm : p.during m u := p.during_of_moved (p.during_of_past hpast hu)
    rcases hmarked with rfl | ⟨a, b, -, -, -, -, rfl⟩
    · exact hnaming.during hm
    · exact hnaming.during (p.during_of_moved hm)
  failed := by
    rintro v u ⟨c, n, m, d, hnaming, hmarked, -, -, hpast⟩ hu
    have hm : p.failed m u := p.failed_of_moved (p.failed_of_past hpast hu)
    rcases hmarked with rfl | ⟨a, b, -, -, -, -, rfl⟩
    · exact hnaming.failed hm
    · exact hnaming.failed (p.failed_of_moved hm)

/-- The members may be closed by a bracket of another kind. -/
theorem ensures_members_close (h : AmongMembers p w v) (hcloses : ClosesMembers v.cursor) :
    Ensures (advance : Typer Unit) v (p.during w) (fun _ u => p.past w u) fun _ u => p.failed w u := by
  have hstage := stage_amongMembers (p := p) w
  refine ensures_advance (hstage.here h) (hstage.stopped h) fun e hnext => ?_
  obtain ⟨c, n, m, d, hnaming, hmarked, hopens, hopen, hpast⟩ := h
  have hcreated := p.past_created hnaming.creates hnaming.next hnaming.named hmarked hopens hopen
    hpast hcloses hnext
  exact ⟨p.during_of_past hcreated (p.during_self _), hcreated⟩

/-- The name of a type, word by word, and a bracket after it. -/
theorem ensures_createdName (h : Naming p w c v) (hword : v.cursor.current.kind = .identifier) :
    Ensures createdName v (p.during w)
      (fun _ u => Naming p w c u ∧ u.cursor.isAny [.openParen, .openBracket, .openCurly] = true)
      fun _ u => p.failed w u := by
  refine .lookThen h.here ?_
  refine (h.advance (hword ▸ rfl)).bind fun _ u hu => ?_
  -- Between two rounds the walk is behind a name, and each round adds a joint and a word.
  refine Ensures.bind (Q := fun _ t => Naming p w c t) ?_ fun name t ht => ?_
  · refine .repeatStep (J := fun _ t => Naming p w c t) (fun _ _ ht => ht.here) (fun _ _ ht => ht.stopped)
      (fun name t ht => ?_) hu
    refine .lookThen ht.here ?_
    split
    · rename_i hjoint
      have hjoint : t.cursor.current.kind.isNamePart = true := by
        simp only [Cursor.isAny] at hjoint
        cases hk : t.cursor.current.kind <;> simp_all [TokenKind.isNamePart]
      refine (ht.advance hjoint).bind fun _ r hr => ?_
      refine .demandThen hr.here (fun hk => ?_) fun _ => hr.stopped
      have hk : r.cursor.current.kind = .identifier := by simpa [Cursor.isKind] using hk
      refine .lookThen hr.here ((hr.advance (hk ▸ rfl)).bind fun _ q hq => ?_)
      exact .pure hq.here hq
    · exact .pure ht.here ⟨ht.here, ht⟩
  · refine .lookThen ht.here ?_
    split
    · rename_i hbracket
      exact .pure ht.here ⟨ht, hbracket⟩
    · exact .stopThen ht.here ht.stopped

/-- After the name, and the mark of an array if it is there, the walk stands on the bracket of the
members. -/
theorem ensures_arrayMark (h : Naming p w c v)
    (hbracket : v.cursor.isAny [.openParen, .openBracket, .openCurly] = true) :
    Ensures arrayMark v (p.during w) (fun _ u => Marked v u ∧ OpensMembers u.cursor)
      fun _ u => p.failed w u := by
  refine .lookThen h.here ?_
  split
  · rename_i hopen
    -- The mark is looked at from behind the name, which counts as during the rule.
    have hduring : ∀ a, p.during w (v.moved a) := fun a =>
      h.during (p.during_of_moved (p.during_self (v.moved a)))
    have hfailed : ∀ a, p.failed w (v.moved a) := fun a =>
      h.failed (p.failed_of_moved (p.failed_self (v.moved a)))
    have hfirst : Ensures (advance : Typer Unit) v (p.during w)
        (fun _ u => ∃ a, v.cursor.next = .ok a ∧ u = v.moved a) fun _ u => p.failed w u :=
      ensures_advance h.here h.stopped fun a hnext => ⟨hduring a, a, hnext, rfl⟩
    refine hfirst.bind ?_
    rintro _ _ ⟨a, ha, rfl⟩
    -- Nothing but `[]` may stand here, and the members open with a curly bracket.
    have hsecond : Ensures (expect .closeBracket .closeBracketExpected : Typer Unit) (v.moved a)
        (p.during w) (fun _ u => a.current.kind = .closeBracket ∧ ∃ b, a.next = .ok b ∧ u = v.moved b)
        fun _ u => p.failed w u := by
      refine .demandThen (hduring a) (fun hclose => ?_) fun _ => hfailed a
      have hclose : a.current.kind = .closeBracket := by simpa [Cursor.isKind] using hclose
      exact ensures_advance (hduring a) (hfailed a) fun b hnext => ⟨hduring b, hclose, b, hnext, rfl⟩
    refine hsecond.bind ?_
    rintro _ _ ⟨hclose, b, hb, rfl⟩
    refine .demandThen (hduring b) (fun hcurly => ?_) fun _ => hfailed b
    have hcurly : b.current.kind = .openCurly := by simpa [Cursor.isKind] using hcurly
    exact .pure (hduring b) ⟨.inr ⟨a, b, hopen, ha, hclose, hb, rfl⟩, .inr hcurly⟩
  -- Without a mark the members open with the bracket that was seen.
  · rename_i hopen
    refine .pure h.here ⟨.inl rfl, ?_⟩
    simp only [Cursor.isAny] at hbracket
    unfold OpensMembers
    cases hk : v.cursor.current.kind <;> simp_all

/-- A comma is passed over, if there is one. -/
theorem follows_commaAfter (found : α) (w : ScopedWalk) : p.Follows (commaAfter found) w := by
  refine follows_look ?_
  split
  · rename_i hcomma
    exact follows_bind (follows_advance_of_kind hcomma rfl) fun _ _ _ => follows_pure _
  · exact follows_pure _

/-- To give a member its name moves no walk. -/
theorem follows_addMember (members : List (String × Operand)) (position : Nat) (a : Operand)
    (name : Option String) (w : ScopedWalk) : p.Follows (addMember members position a name) w := by
  cases name with
  | none => exact follows_stopThen _
  | some name => exact follows_bind (follows_pure _) fun members v _ => follows_commaAfter members v

/-- The name that `as` gives to a member. -/
theorem follows_memberName (isArray dotted : Bool) (a : Operand) {f : Option String → Typer β}
    (hf : ∀ name v, p.Follows (f name) v) (w : ScopedWalk) : p.Follows (memberName isArray dotted a f) w := by
  refine follows_look ?_
  split
  · exact follows_bind (follows_pure _) fun name v _ => hf name v
  · split
    · rename_i has
      refine follows_bind (follows_advance_of_kind (Cursor.kind_of_isWord has) rfl) fun _ v _ => ?_
      exact follows_bind (follows_map (follows_aliasName _ v)) fun name v _ => hf name v
    · exact follows_bind (follows_pure _) fun name v _ => hf name v

/-- One member of what `new` makes. -/
theorem follows_createdStep (hcall : FollowCalls p call) (isArray : Bool)
    (members : List (String × Operand)) (w : ScopedWalk) :
    p.Follows (createdStep s call isArray members) w := by
  refine follows_look ?_
  split
  · exact follows_pure _
  · refine follows_look (follows_bind (hcall conditional w) fun a v _ => ?_)
    exact follows_memberName isArray _ a (follows_addMember members _ a) v

/-- All of its members, up to the bracket that closes them. -/
theorem ensures_createdMembers (hcall : FollowCalls p call) (isArray : Bool) (h : AmongMembers p w v) :
    Ensures (createdMembers s call isArray) v (p.during w) (fun _ u => p.past w u)
      fun _ u => p.failed w u := by
  have hstage := stage_amongMembers (p := p) w
  refine (hstage.loop (fun members v hv => hstage.run hv (follows_createdStep hcall isArray members v))
    [] h).bind fun members u hu => ?_
  refine .lookThen (hstage.here hu) ?_
  split
  · rename_i hcloses
    have hcloses : ClosesMembers u.cursor := by
      simp only [Cursor.isAny] at hcloses
      unfold ClosesMembers
      cases hk : u.cursor.current.kind <;> simp_all
    exact (ensures_members_close hu hcloses).bind fun _ t ht =>
      .pure ((stage_past w).here ht) ht
  · exact .stopThen (hstage.here hu) (hstage.stopped hu)

/-- From the opening bracket of a creation to its end. -/
theorem ensures_createdBody (hcall : FollowCalls p call) (target : Option TypeDef) (position : Nat)
    (h : Naming p w c v) (hbracket : v.cursor.isAny [.openParen, .openBracket, .openCurly] = true) :
    Ensures (createdBody s call target position) v (p.during w) (fun _ u => p.past w u)
      fun _ u => p.failed w u := by
  refine (ensures_arrayMark h hbracket).bind fun isArray m hm => ?_
  have hduring : ∀ {u}, p.during m u → p.during w u := by
    intro u hu
    rcases hm.1 with rfl | ⟨a, b, -, -, -, -, rfl⟩
    · exact h.during hu
    · exact h.during (p.during_of_moved hu)
  have hfailed : p.failed w m := by
    rcases hm.1 with rfl | ⟨a, b, -, -, -, -, rfl⟩
    · exact h.stopped
    · exact h.failed (p.failed_of_moved (p.failed_self _))
  -- The members stand behind one opening bracket.
  have hopen : Ensures (advance : Typer Unit) m (p.during w) (fun _ u => AmongMembers p w u)
      fun _ u => p.failed w u :=
    ensures_advance (hduring (p.during_self m)) hfailed fun d hnext =>
      ⟨hduring (p.during_of_moved (p.during_self _)), c, v, m, d, h, hm.1, hm.2, hnext, p.past_self _⟩
  refine hopen.bind fun _ u hu => (ensures_createdMembers hcall isArray hu).bind fun members t ht => ?_
  -- What is left only computes.
  refine (stage_past w).run ht ?_
  split
  · split
    · exact follows_pure _
    · refine follows_bind (follows_ofExcept _) fun element _ _ => ?_
      cases element <;> exact follows_pure _
  · exact follows_pure _

end

/-- **A creation**, with the name of its type and all of its members. -/
theorem follows_creation (hcall : FollowCalls p call) (hword : p.plain w.cursor.current)
    (hnew : p.creates w.cursor.current) : p.Follows (creation s call) w := by
  refine follows_look ?_
  -- Behind `new` the walk has a name to read, which may as well be missing.
  have hfirst : Ensures (advance : Typer Unit) w (p.during w)
      (fun _ v => ∃ c, Naming p w c v) fun _ v => p.failed w v := by
    refine ensures_advance (p.during_self w) (p.failed_self w) fun c hnext => ?_
    have hnaming : Naming p w c (w.moved c) := ⟨hnew, hnext, p.named_self _⟩
    exact ⟨hnaming.here, c, hnaming⟩
  refine hfirst.bind ?_
  rintro _ v ⟨c, hv⟩
  refine .lookThen hv.here ?_
  dsimp only
  split
  · rename_i hstart
    refine .lookThen hv.here ?_
    split
    · rename_i hname
      refine .lookThen hv.here ((ensures_createdName hv hname).bind fun name u hu => ?_)
      obtain ⟨hu, hbracket⟩ := hu
      split
      · exact .failAt hu.here hu.stopped
      · refine .lookThen hu.here ?_
        split
        · refine (stage_past w).run (hu.past hword) ?_
          exact follows_bind (follows_argumentList hcall u) fun _ _ _ => follows_ofExcept _
        · exact ensures_createdBody hcall _ _ hu hbracket
    -- An anonymous type has members without a name before them.
    · rename_i hname
      refine ensures_createdBody hcall _ _ hv ?_
      simp only [Cursor.isAny] at hstart ⊢
      cases hk : v.cursor.current.kind <;> simp_all
  · exact .stopThen hv.here hv.stopped

/-! ## §6. Words and literals. -/

/-- A name that is no keyword: a member of the context, or the name of a scope. -/
theorem follows_name (hcall : FollowCalls p call) (it : TypeDef) (hword : p.plain w.cursor.current) :
    p.Follows (name s call it) w := by
  refine follows_look (follows_bind (follows_typeName hword) fun found v _ => ?_)
  cases found with
  | some t => exact follows_typeAccess hcall t _ v
  | none =>
    refine follows_bind (follows_hasMember it _ v) fun has v _ => ?_
    split
    · exact follows_memberAccess hcall it _ v
    · exact follows_stopThen _

/-- A word goes by the first of the tables in which it is found. -/
theorem follows_word (hcall : FollowCalls p call) (hword : p.word w.cursor.current) :
    p.Follows (word s call) w := by
  refine follows_scopes (follows_look ?_)
  have hplain := p.plain_of_word hword
  -- Most words are read alone.
  have hadvance : ∀ a : Operand, p.Follows (do
      advance
      pure a) w := fun a => follows_bind (follows_advance hplain) fun _ _ _ => follows_pure a
  dsimp only
  split
  · exact hadvance _
  iterate 2
    cases w.held with
    | nil => exact follows_fail _
    | cons scope outer => exact hadvance _
  iterate 3 exact hadvance _
  · exact follows_choice hcall hplain
  · exact follows_nullPropagation hcall hplain
  · rename_i hnew
    exact follows_creation hcall hplain (p.creates_of_word hword hnew)
  · split
    · exact hadvance _
    · exact follows_name hcall _ hplain

/-- Literals in a row. -/
theorem follows_adjacentLiterals (first : String) (hplain : p.plain w.cursor.current) :
    p.Follows (adjacentLiterals first) w := by
  refine follows_bind (follows_advance hplain) fun _ v _ => follows_repeatStep (fun joined v => ?_) _ v
  refine follows_look ?_
  split
  · rename_i hliteral
    exact follows_bind (follows_advance_of_kind hliteral rfl) fun _ _ _ => follows_pure _
  · exact follows_pure _

/-- A look past a question mark is a look past plain tokens. -/
theorem follows_pastQuestion {c : Cursor} {f : Cursor → Typer β} (hc : p.past w (w.moved c))
    (hf : ∀ d, p.past w (w.moved d) → p.Follows (f d) w) : p.Follows (pastQuestion c f) w := by
  unfold pastQuestion
  split
  · rename_i hquestion
    refine follows_ofExceptThen fun d hnext => hf d (p.past_trans hc ?_)
    exact p.past_next (w := w.moved c) (p.plain_of_kind (hquestion ▸ rfl)) hnext
  · exact .pureThen (p.during_self w) (hf c hc)

/-- What a literal before a parenthesis makes. -/
theorem follows_construction (hcall : FollowCalls p call) (value : String) (position : Nat)
    (w : ScopedWalk) : p.Follows (construction s call value position) w := by
  refine follows_bind (follows_argumentList hcall w) fun read v _ => ?_
  split
  · exact follows_ofExcept _
  · exact follows_failAt _ _

/-- What the literals of a row stand for, joined. -/
theorem follows_joinedText (token : Token) (hplain : p.plain w.cursor.current) :
    p.Follows (joinedText s token) w :=
  follows_bind (follows_adjacentLiterals _ hplain) fun _ _ _ =>
    follows_bind (follows_ofExcept _) fun _ _ _ => follows_pure _

/-- A literal, by itself, in a row or before a parenthesis. -/
theorem follows_text (hcall : FollowCalls p call) (hplain : p.plain w.cursor.current) :
    p.Follows (text s call) w := by
  rw [text_eq]
  refine follows_look (follows_ofExceptThen fun ahead hnext => ?_)
  refine follows_pastQuestion (p.past_next hplain hnext) fun ahead hahead => ?_
  refine follows_ofExceptThen fun value _ => ?_
  split
  · split
    · exact follows_stopThen _
    · exact follows_bind (follows_advance hplain) fun _ _ _ => follows_pure _
  · split
    · exact follows_editThen hahead (follows_construction hcall value _ _)
    · exact follows_joinedText _ hplain

/-- A number is one token, and it is plain where it is in range. -/
theorem follows_number (typeOf? : String → Option String) (form : Form) (invalid : String → Cause)
    (hplain : ∀ name, typeOf? w.cursor.current.text = some name → p.plain w.cursor.current) :
    p.Follows (number typeOf? form invalid) w := by
  refine follows_look ?_
  dsimp only [id]
  split
  · exact follows_fail _
  · rename_i name htype
    exact follows_bind (follows_advance (hplain name htype)) fun _ _ _ => follows_pure _

/-- An expression between brackets, or an operand without any around it. -/
theorem follows_primary (hcall : FollowCalls p call) (w : ScopedWalk) : p.Follows (primary s call) w := by
  refine follows_look ?_
  split
  · rename_i hkind
    exact follows_word hcall (p.word_of_kind hkind)
  · rename_i hkind
    exact follows_text hcall (p.plain_of_kind (hkind ▸ rfl))
  · rename_i hkind
    have hnumber : w.cursor.current.numberType? = Literal.integerType? w.cursor.current.text := by
      rw [Token.numberType?, hkind]
    exact follows_number _ _ _ fun _ htype => p.plain_of_number (hnumber.trans htype)
  · rename_i hkind
    have hnumber : w.cursor.current.numberType? = Literal.realType? w.cursor.current.text := by
      rw [Token.numberType?, hkind]
    exact follows_number _ _ _ fun _ htype => p.plain_of_number (hnumber.trans htype)
  -- Parentheses: what is opened is closed by the same kind.
  · rename_i hkind
    refine (ensures_advance_opened w).bind fun _ v hv => ?_
    have hv : p.OpenedBy .openParen w v := ⟨hkind, hv⟩
    refine ((stage_openedBy .openParen w).run hv (hcall conditional v)).bind fun inner u hu => ?_
    exact ensures_close_then hu rfl _ fun _ => follows_pure inner
  · exact follows_fail _

/-- What is attached to an operand, one thing after the other. -/
theorem follows_attached (hcall : FollowCalls p call) (a : Operand) (w : ScopedWalk) :
    p.Follows (attached s call a) w := by
  refine follows_repeatStep (fun a v => follows_look ?_) a w
  split
  · rename_i hdot
    refine follows_bind (follows_advance_of_kind hdot rfl) fun _ v _ => ?_
    exact follows_bind (follows_memberAccess hcall _ _ v) fun _ _ _ => follows_pure _
  · exact follows_refuse
  · exact follows_bind (follows_elementAccess hcall _ v) fun _ _ _ => follows_pure _
  · exact follows_pure _

/-! ## §7. Operators. -/

/-- Operands with operators between them, none of which opens or closes anything. -/
theorem follows_chain (hcall : FollowCalls p call) (rule : Rule) {isOperator : Cursor → Bool}
    (hneutral : ∀ c, isOperator c = true → c.current.kind.isNeutral = true) (w : ScopedWalk) :
    p.Follows (chain s call rule isOperator) w := by
  refine follows_bind (hcall rule w) fun _ v _ => follows_repeatStep (fun left v => follows_look ?_) _ v
  dsimp only [id]
  split
  · rename_i hoperator
    refine follows_look (follows_bind (follows_advance (p.plain_of_kind (hneutral _ hoperator))) fun _ v _ => ?_)
    refine follows_bind (hcall rule v) fun right v _ => ?_
    exact follows_bind (follows_ofExcept _) fun _ _ _ => follows_pure _
  · exact follows_pure _

/-- The list of a containment between its brackets.  The first round of the loop opens the bracket,
all others go past a comma. -/
theorem follows_containerList (hcall : FollowCalls p call) (operator : Token) (left : Operand)
    (hopen : w.cursor.current.kind = .openParen) : p.Follows (containerList s call operator left) w := by
  have hstage := stage_openedBy (p := p) .openParen w
  refine Ensures.bind (Q := fun _ v => p.OpenedBy .openParen w v ∧ v.cursor.current.kind = .closeParen)
    ?_ fun _ v hv => ensures_advance_close hv.1 rfl hv.2
  -- Between two rounds the walk is before the list, or inside it and at a comma.
  refine .repeatStep
    (J := fun _ v => v = w ∨ (p.OpenedBy .openParen w v ∧ v.cursor.current.kind = .comma))
    ?_ ?_ (fun _ v hv => ?_) (.inl rfl)
  · rintro _ v (rfl | hv)
    · exact p.during_self v
    · exact hstage.here hv.1
  · rintro _ v (rfl | hv)
    · exact p.failed_self v
    · exact hstage.stopped hv.1
  -- The first round goes past the opening bracket, and each later one past the comma.
  have hfirst : Ensures (advance : Typer Unit) v (p.during w) (fun _ u => p.OpenedBy .openParen w u)
      fun _ u => p.failed w u := by
    rcases hv with rfl | ⟨hv, hcomma⟩
    · exact (ensures_advance_opened v).imp (fun _ _ hu => ⟨hopen, hu⟩) fun _ _ hu => hu
    · exact hstage.run hv (follows_advance_of_kind hcomma rfl)
  refine hfirst.bind fun _ u hu => (hstage.run hu (hcall unary u)).bind fun element t ht => ?_
  refine (hstage.run ht (follows_ofExcept _)).bind fun _ r hr => .lookThen (hstage.here hr) ?_
  split
  · rename_i hcomma
    exact .pure (hstage.here hr) (.inr ⟨hr, hcomma⟩)
  · rename_i hclose
    exact .pure (hstage.here hr) ⟨hstage.here hr, hr, hclose⟩
  · exact .failAt (hstage.here hr) (hstage.stopped hr)
  · exact .fail (hstage.here hr) (hstage.stopped hr)

/-- The operator of a containment is one token, or two of which the second one is `in`. -/
theorem follows_pastOperator (isNegated : Bool) (position : Nat) {x : Typer Unit}
    (hplain : p.plain w.cursor.current) (hx : ∀ v, p.Follows x v) :
    p.Follows (pastOperator isNegated position x) w := by
  unfold pastOperator
  split
  · refine follows_bind (follows_advance hplain) fun _ v _ => follows_look ?_
    split
    · rename_i hin
      exact follows_bind (follows_advance_of_kind (Cursor.kind_of_isWord hin) rfl) fun _ v _ => hx v
    · exact follows_stopThen _
  · exact follows_bind (follows_advance hplain) fun _ v _ => hx v

/-- The right side of a containment. -/
theorem follows_contained (hcall : FollowCalls p call) (operator : Token) (left : Operand) (w : ScopedWalk) :
    p.Follows (contained s call operator left) w := by
  refine follows_look ?_
  split
  · rename_i hopen
    exact follows_containerList hcall _ left hopen
  · refine follows_bind (hcall operand w) fun sequence v _ => ?_
    split
    · exact follows_failAt _ _
    · exact follows_ofExcept _
  · exact follows_failAt _ _

/-- An operator of containment and its right side. -/
theorem follows_container (hcall : FollowCalls p call) (left : Operand)
    (hplain : p.plain w.cursor.current) : p.Follows (container s call left) w := by
  rw [container_eq]
  exact follows_look (follows_pastOperator _ _ hplain (follows_contained hcall _ left))

/-- Operands of containments, one after the other. -/
theorem follows_containment (hcall : FollowCalls p call) (w : ScopedWalk) :
    p.Follows (body s call containment) w := by
  refine follows_bind (hcall bitwise w) fun _ v _ => follows_repeatStep (fun left v => follows_look ?_) _ v
  dsimp only [id]
  split
  · rename_i hoperator
    have hneutral : v.cursor.current.kind.isNeutral = true := by
      simp only [Cursor.isOneOf] at hoperator
      cases hk : v.cursor.current.kind <;> simp_all [TokenKind.isNeutral, TokenKind.isPlain, TokenKind.isNumber]
    exact follows_bind (follows_container hcall left (p.plain_of_kind hneutral)) fun _ _ _ => follows_pure _
  · exact follows_pure _

/-- An operand with operators before it. -/
theorem follows_unary (hcall : FollowCalls p call) (w : ScopedWalk) : p.Follows (body s call unary) w := by
  refine follows_nested (fun w => ?_) w
  refine follows_look (follows_look ?_)
  split
  · rename_i hsign
    have hneutral : w.cursor.current.kind.isNeutral = true := by
      simp only [Cursor.isAny, Cursor.isWord] at hsign
      cases hk : w.cursor.current.kind <;> simp_all [TokenKind.isNeutral, TokenKind.isPlain, TokenKind.isNumber]
    refine follows_look (follows_bind (follows_advance (p.plain_of_kind hneutral)) fun _ v _ => follows_look ?_)
    split
    · rename_i hnegated
      have hnumber : v.cursor.current.kind.isNumber = true := by
        simp only [Bool.and_eq_true] at hnegated
        exact hnegated.2
      exact follows_editThen (p.past_negated _ hnumber) (hcall operand _)
    · exact follows_bind (hcall unary v) fun _ _ _ => follows_ofExcept _
  · exact hcall operand w

/-! ## §8. Every rule. -/

/-- A condition and its branches. -/
theorem follows_conditional (hcall : FollowCalls p call) (w : ScopedWalk) :
    p.Follows (body s call conditional) w := by
  refine follows_nested (fun w => follows_look ?_) w
  refine follows_bind (hcall coalescing w) fun test v _ => follows_look ?_
  split
  · rename_i hquestion
    refine follows_ofExceptThen fun _ _ => follows_look ?_
    refine follows_bind (follows_advance_of_kind hquestion rfl) fun _ v _ => ?_
    refine follows_bind (hcall conditional v) fun a v _ => ?_
    refine follows_bind (follows_expect rfl _) fun _ v _ => ?_
    exact follows_bind (hcall conditional v) fun b _ _ => follows_ofExcept _
  · exact follows_pure _

/-- What may stand behind `??`. -/
theorem follows_coalescing (hcall : FollowCalls p call) (w : ScopedWalk) :
    p.Follows (body s call coalescing) w := by
  refine follows_bind (hcall projection w) fun left v _ => follows_look ?_
  split
  · rename_i hcoalesce
    refine follows_look (follows_bind (follows_advance_of_kind hcoalesce rfl) fun _ v _ => ?_)
    refine follows_bind (hcall conditional v) fun right _ _ => ?_
    repeat' split
    · exact follows_pure _
    · exact follows_pure _
    · exact follows_pure _
    · exact follows_ofExcept _
  · exact follows_pure _

/-- What may stand behind an arrow. -/
theorem follows_projection (hcall : FollowCalls p call) (w : ScopedWalk) :
    p.Follows (body s call projection) w := by
  refine follows_bind (hcall disjunction w) fun _ v _ => follows_look ?_
  dsimp only
  split
  · exact follows_stopThen _
  · exact follows_pure _

/-- A rule follows the course if the rules that it calls do. -/
theorem follows_body (hcall : FollowCalls p call) (r : Rule) (w : ScopedWalk) :
    p.Follows (body s call r) w := by
  -- For a chain, what goes on is an operator of its own kind, and that says what may be gone past.
  cases r with
  | conditional => exact follows_conditional hcall w
  | coalescing => exact follows_coalescing hcall w
  | projection => exact follows_projection hcall w
  | disjunction =>
    refine follows_chain hcall conjunction (fun c hc => ?_) w
    rw [eq_of_beq hc]
    rfl
  | conjunction =>
    refine follows_chain hcall containment (fun c hc => ?_) w
    rw [eq_of_beq hc]
    rfl
  | containment => exact follows_containment hcall w
  | bitwise =>
    refine follows_chain hcall comparison (fun c hc => ?_) w
    cases hk : c.current.kind <;> simp_all [TokenKind.isNeutral, TokenKind.isPlain, TokenKind.isNumber]
  | comparison =>
    refine follows_chain hcall shift (fun c hc => ?_) w
    cases hk : c.current.kind <;>
      simp_all [TokenKind.isNeutral, TokenKind.isPlain, TokenKind.isNumber, TokenKind.isComparison]
  | shift =>
    refine follows_chain hcall sum (fun c hc => ?_) w
    cases hk : c.current.kind <;> simp_all [TokenKind.isNeutral, TokenKind.isPlain, TokenKind.isNumber]
  | sum =>
    refine follows_chain hcall product (fun c hc => ?_) w
    cases hk : c.current.kind <;> simp_all [TokenKind.isNeutral, TokenKind.isPlain, TokenKind.isNumber]
  | product =>
    refine follows_chain hcall unary (fun c hc => ?_) w
    cases hk : c.current.kind <;>
      simp_all [TokenKind.isNeutral, TokenKind.isPlain, TokenKind.isNumber, Cursor.isWord]
  | unary => exact follows_unary hcall w
  | operand => exact follows_bind (follows_primary hcall w) fun first v _ => follows_attached hcall first v

/-- **Every rule follows the course**, with any budget. -/
theorem follows_run (p : Course) (s : Setting) (budget : Nat) (r : Rule) (w : ScopedWalk) :
    p.Follows (run s budget r) w := by
  induction budget generalizing r w with
  | zero => exact follows_fail _
  | succ budget ih => exact follows_body ih r w

end TypeAhead.Typing.Rule
