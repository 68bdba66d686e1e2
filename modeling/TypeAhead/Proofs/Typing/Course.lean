/-
  TypeAhead.Proofs.Typing.Course — WHAT EVERY RULE OF TYPING DOES TO A WALK.

  Some things are true of every rule alike: that it leaves the scopes as they
  were, that every bracket it goes past is closed again.  Such a thing is a
  `Course`: relations between the walk at which a rule starts and the walks to
  which it comes.  A course says what going past one token does, past a pair of
  brackets and what is between them, one level deeper and in one more scope.

  The grammar is gone through here once.  A theorem about all rules gives the
  course and gets the rules.

      Course.follows_bind     rules in a row
      Course.follows_body     the bodies of all rules, given their calls
      Course.follows_run      every rule, with every budget
-/
import TypeAhead.Proofs.Walk.Contract
import TypeAhead.Typing.Compile

namespace TypeAhead

open Walker

/-- The walk at another place among the tokens. -/
abbrev Walk.moved {σ : Type} (w : Walk σ) (c : Cursor) : Walk σ := { w with cursor := c }

namespace TokenKind

/-- The kind of bracket that closes one. -/
def closer? : TokenKind → Option TokenKind
  | openParen => some closeParen
  | openBracket => some closeBracket
  | openCurly => some closeCurly
  | _ => none

/-- Whether a token of the kind opens or closes anything. -/
def isBracket : TokenKind → Bool
  | openParen | closeParen | openBracket | closeBracket | openCurly | closeCurly => true
  | _ => false

/-- Whether a rule may go past a token of the kind by itself: it neither opens nor closes anything,
and propagates no null. -/
def isPlain : TokenKind → Bool
  | openParen | closeParen | openBracket | closeBracket | openCurly | closeCurly | propagate => false
  | _ => true

/-- Whether a rule may go past a token of the kind by itself, however it is worded: numbers must have
a type. -/
def isNeutral (kind : TokenKind) : Bool := kind.isPlain && !kind.isNumber

/-- What may be gone past however it is worded may be gone past. -/
theorem isPlain_of_isNeutral {kind : TokenKind} (h : kind.isNeutral = true) : kind.isPlain = true :=
  (Bool.and_eq_true_iff.1 h).1

/-- Whether the name of a type may have a token of the kind: a word, or what joins two words. -/
def isNamePart : TokenKind → Bool
  | identifier | dot | plus => true
  | _ => false

end TokenKind

/-- The full name of the type of a number, with the minus that it may have taken. -/
def Token.numberType? (t : Token) : Option String :=
  match t.kind with
  | .integerLiteral => Literal.integerType? t.text
  | .realLiteral => Literal.realType? t.text
  | _ => none

/-- Numbers are no brackets. -/
theorem Token.isPlain_of_numberType? {t : Token} {name : String} (h : t.numberType? = some name) :
    t.kind.isPlain = true := by
  unfold Token.numberType? at h
  split at h
  · rename_i hkind
    rw [hkind]
    rfl
  · rename_i hkind
    rw [hkind]
    rfl
  · cases h

/-- A word is an identifier. -/
theorem Cursor.kind_of_isWord {c : Cursor} {word : String} (h : c.isWord word = true) :
    c.current.kind = .identifier := by
  simp only [Cursor.isWord, Bool.and_eq_true, beq_iff_eq] at h
  exact h.1

namespace Typing

variable {α β : Type}

/-! ## §1. Courses. -/

/-- A walk with its open scopes. -/
abbrev ScopedWalk := Walk (List Scope)

/-- Nothing lies between the two walks, or the brackets that mark an array. -/
def Marked (w v : ScopedWalk) : Prop :=
  v = w ∨ ∃ c d, w.cursor.current.kind = .openBracket ∧ w.cursor.next = .ok c ∧
    c.current.kind = .closeBracket ∧ c.next = .ok d ∧ v = w.moved d

/-- The bracket before the members of what `new` makes. -/
def OpensMembers (c : Cursor) : Prop := c.current.kind = .openParen ∨ c.current.kind = .openCurly

/-- The bracket after them. -/
def ClosesMembers (c : Cursor) : Prop := c.current.kind = .closeParen ∨ c.current.kind = .closeCurly

/-- Something that is true of every rule: how the walks to which it comes have to do with the walk
at which it starts. -/
structure Course where
  /-- On the way. -/
  during : ScopedWalk → ScopedWalk → Prop
  /-- After a rule that succeeds. -/
  past : ScopedWalk → ScopedWalk → Prop
  /-- After a rule that fails. -/
  failed : ScopedWalk → ScopedWalk → Prop
  /-- After some part of the name of the type that `new` makes. -/
  named : ScopedWalk → ScopedWalk → Prop
  /-- The tokens past which a rule may go by themselves. -/
  plain : Token → Prop
  /-- The words among them. -/
  word : Token → Prop
  /-- The word `new` among those. -/
  creates : Token → Prop
  during_self : ∀ w, during w w
  past_self : ∀ w, past w w
  failed_self : ∀ w, failed w w
  past_trans : ∀ {w v u}, past w v → past v u → past w u
  during_of_past : ∀ {w v u}, past w v → during v u → during w u
  failed_of_past : ∀ {w v u}, past w v → failed v u → failed w u
  during_of_failed : ∀ {w v}, failed w v → during w v
  during_of_moved : ∀ {w : ScopedWalk} {c u}, during (w.moved c) u → during w u
  failed_of_moved : ∀ {w : ScopedWalk} {c u}, failed (w.moved c) u → failed w u
  plain_of_kind : ∀ {t : Token}, t.kind.isNeutral = true → plain t
  plain_of_number : ∀ {t : Token} {name}, t.numberType? = some name → plain t
  plain_of_discard : ∀ {t : Token}, t.text = "_" → plain t
  plain_of_word : ∀ {t}, word t → plain t
  word_of_kind : ∀ {t : Token}, t.kind = .identifier → word t
  creates_of_word : ∀ {t : Token}, word t → Text.lower (plainName t.text) = "new" → creates t
  /-- Past one token. -/
  past_next : ∀ {w : ScopedWalk} {c}, plain w.cursor.current → w.cursor.next = .ok c →
    past w (w.moved c)
  /-- Past a pair of brackets and what is between them. -/
  past_pair : ∀ {w v : ScopedWalk} {c d closer}, w.cursor.current.kind.closer? = some closer →
    w.cursor.next = .ok c → past (w.moved c) v → v.cursor.current.kind = closer →
    v.cursor.next = .ok d → past w (v.moved d)
  /-- A number that takes the minus before it stays where it is. -/
  past_negated : ∀ {w : ScopedWalk} (minus : Token), w.cursor.current.kind.isNumber = true →
    past w (w.moved { w.cursor with current := w.cursor.current.negated minus })
  named_self : ∀ w, named w w
  named_next : ∀ {w v : ScopedWalk} {c}, named w v → v.cursor.current.kind.isNamePart = true →
    v.cursor.next = .ok c → named w (v.moved c)
  past_of_named : ∀ {w v}, named w v → past w v
  /-- Past `new`, the name of a type, the mark of an array and the members in brackets. -/
  past_created : ∀ {w v u t : ScopedWalk} {c d e}, creates w.cursor.current → w.cursor.next = .ok c →
    named (w.moved c) v → Marked v u → OpensMembers u.cursor → u.cursor.next = .ok d →
    past (u.moved d) t → ClosesMembers t.cursor → t.cursor.next = .ok e → past w (t.moved e)
  during_of_deeper : ∀ {w v}, w.depth < Limits.nesting → during w.deeper v → during w v
  past_of_deeper : ∀ {w v}, w.depth < Limits.nesting → past w.deeper v → past w v.shallower
  failed_of_deeper : ∀ {w v}, w.depth < Limits.nesting → failed w.deeper v → failed w v.shallower
  during_of_scope : ∀ {w v : ScopedWalk} {scope}, w.held.length + 1 < Limits.scopes →
    during { w with held := scope :: w.held } v → during w v
  past_of_scope : ∀ {w v : ScopedWalk} {scope}, w.held.length + 1 < Limits.scopes →
    past { w with held := scope :: w.held } v → past w { v with held := v.held.tail }
  failed_of_scope : ∀ {w v : ScopedWalk} {scope}, w.held.length + 1 < Limits.scopes →
    failed { w with held := scope :: w.held } v → failed w { v with held := v.held.tail }

namespace Course

variable (p : Course) {x : Typer α} {f : α → Typer β} {w v : ScopedWalk}

/-- Started at `w`, the rule follows the course. -/
abbrev Follows (x : Typer α) (w : ScopedWalk) : Prop :=
  Ensures x w (p.during w) (fun _ v => p.past w v) (fun _ v => p.failed w v)

/-- What may be known of the walks between two parts of a rule that starts at `w`: it stays true
past any other rule. -/
structure Stage (w : ScopedWalk) (P : ScopedWalk → Prop) : Prop where
  past : ∀ {v u}, P v → p.past v u → P u
  during : ∀ {v u}, P v → p.during v u → p.during w u
  failed : ∀ {v u}, P v → p.failed v u → p.failed w u

/-- After a bracket has been opened and rules have gone on from there. -/
def Opened (w v : ScopedWalk) : Prop := ∃ c, w.cursor.next = .ok c ∧ p.past (w.moved c) v

variable {p}

/-- After a rule that succeeds, the others of the course may follow. -/
theorem stage_past (w : ScopedWalk) : p.Stage w (p.past w) where
  past := p.past_trans
  during := p.during_of_past
  failed := p.failed_of_past

/-- Behind an open bracket the rules of the course may follow, with the bracket still to be closed. -/
theorem stage_opened (w : ScopedWalk) : p.Stage w (p.Opened w) where
  past := by
    rintro v u ⟨c, hnext, hv⟩ hu
    exact ⟨c, hnext, p.past_trans hv hu⟩
  during := by
    rintro v u ⟨c, -, hv⟩ hu
    exact p.during_of_moved (p.during_of_past hv hu)
  failed := by
    rintro v u ⟨c, -, hv⟩ hu
    exact p.failed_of_moved (p.failed_of_past hv hu)

namespace Stage

variable {P : ScopedWalk → Prop}

/-- Each stage is one of the walks on the way. -/
theorem here (h : p.Stage w P) (hv : P v) : p.during w v := h.during hv (p.during_self v)

/-- A rule may fail at each stage. -/
theorem stopped (h : p.Stage w P) (hv : P v) : p.failed w v := h.failed hv (p.failed_self v)

/-- A rule between two parts of another one. -/
theorem run (h : p.Stage w P) (hv : P v) (hx : p.Follows x v) :
    Ensures x v (p.during w) (fun _ u => P u) fun _ u => p.failed w u :=
  (hx.along_imp fun _ hu => h.during hv hu).imp (fun _ _ hu => h.past hv hu)
    fun _ _ hu => h.failed hv hu

/-- A loop between two parts of a rule. -/
theorem loop {step : α → Typer (Bool × α)} (h : p.Stage w P)
    (hstep : ∀ a v, P v → Ensures (step a) v (p.during w) (fun _ u => P u) fun _ u => p.failed w u)
    (a : α) (hv : P v) :
    Ensures (repeatStep step a) v (p.during w) (fun _ u => P u) fun _ u => p.failed w u := by
  -- What is known between two rounds is what was known before the first one.
  refine .repeatStep (J := fun _ u => P u) (fun _ _ => h.here) (fun _ _ => h.stopped)
    (fun a v hv => ?_) hv
  refine (hstep a v hv).imp (fun next u hu => ?_) fun _ _ hu => hu
  split
  · exact hu
  · exact ⟨h.here hu, hu⟩

end Stage

/-! ## §2. Rules that follow a course. -/

/-- One rule after the other.  The second one starts past the first one. -/
theorem follows_bind (hx : p.Follows x w) (hf : ∀ a v, p.past w v → p.Follows (f a) v) :
    p.Follows (x >>= f) w :=
  hx.bind fun a v hv => (stage_past w).run hv (hf a v hv)

theorem follows_pure (a : α) : p.Follows (pure a) w := .pure (p.during_self w) (p.past_self w)

theorem follows_map {g : α → β} (hx : p.Follows x w) : p.Follows (g <$> x) w :=
  follows_bind hx fun _ _ _ => follows_pure _

/-- What follows a look at the current token. -/
theorem follows_look {g : Cursor → α} (h : p.Follows (f (g w.cursor)) w) :
    p.Follows (look g >>= f) w :=
  .lookThen (p.during_self w) h

theorem follows_ofLook (g : Cursor → α) : p.Follows (look g) w :=
  .look (p.during_self w) (p.past_self w)

/-- To ask for the scopes changes nothing. -/
theorem follows_scopes {f : List Scope → Typer β} (h : p.Follows (f w.held) w) :
    p.Follows (scopes >>= f) w := by
  have hscopes : Ensures scopes w (p.during w) (fun a v => a = w.held ∧ v = w)
      fun _ v => p.failed w v := .move (p.during_self w) (p.during_self w) ⟨rfl, rfl⟩
  refine hscopes.bind ?_
  rintro _ _ ⟨rfl, rfl⟩
  exact h

theorem follows_fail (cause : Cause) : p.Follows (fail cause : Typer α) w :=
  .fail (p.during_self w) (p.failed_self w)

theorem follows_failAt (position : Nat) (cause : Cause) : p.Follows (failAt position cause : Typer α) w :=
  .failAt (p.during_self w) (p.failed_self w)

/-- To refuse null propagation is to fail without having gone past it. -/
theorem follows_refuse : p.Follows (refuse : Typer α) w :=
  .refuse (p.during_self w) (p.failed_self w)

/-- Where a rule stops, nothing follows. -/
theorem follows_stopThen (g : Cursor → Failure) : p.Follows (stop g >>= f) w :=
  .stopThen (p.during_self w) (p.failed_self w)

theorem follows_ofExcept (e : Except Fault α) : p.Follows (ofExcept e) w :=
  .ofExcept (p.during_self w) (fun _ _ => p.past_self w) fun _ _ => p.failed_self w

/-- What follows something read from the text. -/
theorem follows_ofExceptThen {e : Except Fault α} (hf : ∀ a, e = .ok a → p.Follows (f a) w) :
    p.Follows (ofExcept e >>= f) w :=
  .ofExceptThen (p.during_self w) (fun _ _ => p.failed_self w) hf

/-- What follows a change of the place among the tokens. -/
theorem follows_editThen {g : Cursor → Cursor} {f : Unit → Typer β}
    (hc : p.past w (w.moved (g w.cursor))) (h : p.Follows (f ()) (w.moved (g w.cursor))) :
    p.Follows (edit g >>= f) w := by
  have hedit : Ensures (edit g : Typer Unit) w (p.during w) (fun _ v => v = w.moved (g w.cursor))
      fun _ v => p.failed w v := .edit (p.during_self w) ((stage_past w).here hc) rfl
  refine hedit.bind ?_
  rintro _ _ rfl
  exact (stage_past w).run hc h

/-- Going on is one step, of which the course is known from the token that is left behind. -/
theorem ensures_advance {w₀ : ScopedWalk} {P : ScopedWalk → Prop} (hw : p.during w₀ w)
    (hfailed : p.failed w₀ w) (h : ∀ c, w.cursor.next = .ok c → p.during w₀ (w.moved c) ∧ P (w.moved c)) :
    Ensures (advance : Typer Unit) w (p.during w₀) (fun _ v => P v) fun _ v => p.failed w₀ v :=
  .advance hw h fun _ _ => hfailed

/-- A token that may be gone past by itself. -/
theorem follows_advance (h : p.plain w.cursor.current) : p.Follows advance w := by
  refine ensures_advance (p.during_self w) (p.failed_self w) fun c hnext => ?_
  have hpast := p.past_next h hnext
  exact ⟨p.during_of_past hpast (p.during_self _), hpast⟩

/-- A token whose kind alone tells that it may be gone past. -/
theorem follows_advance_of_kind {kind : TokenKind} (h : w.cursor.current.kind = kind)
    (hkind : kind.isNeutral = true) : p.Follows advance w :=
  follows_advance (p.plain_of_kind (h ▸ hkind))

/-- What follows a demand knows that it is met. -/
theorem follows_demandThen {test : Cursor → Bool} {cause : Cause} {f : Unit → Typer β}
    (h : test w.cursor = true → p.Follows (f ()) w) : p.Follows (demand test cause >>= f) w :=
  .demandThen (p.during_self w) h fun _ => p.failed_self w

/-- What follows a demand knows that it is met. -/
theorem follows_requireThen {kind : TokenKind} {cause : Cause} {f : Unit → Typer β}
    (h : w.cursor.current.kind = kind → p.Follows (f ()) w) : p.Follows (require kind cause >>= f) w :=
  follows_demandThen fun ht => h (by simpa [Cursor.isKind] using ht)

/-- A token of a neutral kind. -/
theorem follows_expect {kind : TokenKind} (hkind : kind.isNeutral = true) (cause : Cause) :
    p.Follows (expect kind cause : Typer Unit) w :=
  follows_requireThen fun h => follows_advance_of_kind h hkind

/-- A bracket is opened. -/
theorem ensures_advance_opened (w : ScopedWalk) :
    Ensures (advance : Typer Unit) w (p.during w) (fun _ v => p.Opened w v) fun _ v => p.failed w v :=
  ensures_advance (p.during_self w) (p.failed_self w) fun c hnext =>
    ⟨p.during_of_moved (p.during_self _), c, hnext, p.past_self _⟩

/-- The walk is past a bracket of the kind. -/
def OpenedBy (p : Course) (kind : TokenKind) (w v : ScopedWalk) : Prop :=
  w.cursor.current.kind = kind ∧ p.Opened w v

/-- Behind a bracket of a given kind. -/
theorem stage_openedBy (kind : TokenKind) (w : ScopedWalk) : p.Stage w (p.OpenedBy kind w) where
  past h hu := ⟨h.1, (stage_opened w).past h.2 hu⟩
  during h hu := (stage_opened w).during h.2 hu
  failed h hu := (stage_opened w).failed h.2 hu

/-- Going past an opening bracket leaves it to be closed. -/
theorem ensures_expect_open (kind : TokenKind) (cause : Cause) (w : ScopedWalk) :
    Ensures (expect kind cause : Typer Unit) w (p.during w) (fun _ v => p.OpenedBy kind w v)
      fun _ v => p.failed w v := by
  refine .demandThen (p.during_self w) (fun ht => ?_) fun _ => p.failed_self w
  have hkind : w.cursor.current.kind = kind := by simpa [Cursor.isKind] using ht
  exact (ensures_advance_opened w).imp (fun _ _ hv => ⟨hkind, hv⟩) fun _ _ hv => hv

/-- The bracket that was opened is closed where the walk stands on its other half. -/
theorem ensures_advance_close {kind closer : TokenKind} (h : p.OpenedBy kind w v)
    (hcloser : kind.closer? = some closer) (hv : v.cursor.current.kind = closer) :
    Ensures (advance : Typer Unit) v (p.during w) (fun _ u => p.past w u) fun _ u => p.failed w u := by
  have hstage := stage_openedBy (p := p) kind w
  refine ensures_advance (hstage.here h) (hstage.stopped h) fun d hnext => ?_
  -- The token that opened is still known here, after all that came between.
  obtain ⟨hkind, c, hopen, hpast⟩ := h
  have hpair := p.past_pair (hkind ▸ hcloser) hopen hpast hv hnext
  exact ⟨p.during_of_past hpair (p.during_self _), hpair⟩

/-- The bracket that closes the one that is open leads past the pair. -/
theorem ensures_expect_close {kind closer : TokenKind} (h : p.OpenedBy kind w v)
    (hcloser : kind.closer? = some closer) (cause : Cause) :
    Ensures (expect closer cause : Typer Unit) v (p.during w) (fun _ u => p.past w u)
      fun _ u => p.failed w u := by
  have hstage := stage_openedBy (p := p) kind w
  refine .demandThen (hstage.here h) (fun ht => ?_) fun _ => hstage.stopped h
  exact ensures_advance_close h hcloser (by simpa [Cursor.isKind] using ht)

/-- What follows a bracket that is closed. -/
theorem ensures_close_then {kind closer : TokenKind} {f : Unit → Typer β} (h : p.OpenedBy kind w v)
    (hcloser : kind.closer? = some closer) (cause : Cause) (hf : ∀ u, p.Follows (f ()) u) :
    Ensures (expect closer cause >>= f) v (p.during w) (fun _ u => p.past w u)
      fun _ u => p.failed w u :=
  (ensures_expect_close h hcloser cause).bind fun _ u hu => (stage_past w).run hu (hf u)

/-- One level deeper, from any walk. -/
theorem follows_nested (h : ∀ w, p.Follows x w) (w : ScopedWalk) : p.Follows (nested x) w := by
  refine .nested (p.during_self w) (fun _ => p.failed_self w) fun hdepth => ?_
  refine ((h w.deeper).along_imp fun _ hv => p.during_of_deeper hdepth hv).imp
    (fun _ v hv => ?_) fun _ v hv => ?_
  · have hpast := p.past_of_deeper hdepth hv
    exact ⟨p.during_of_past hpast (p.during_self _), hpast⟩
  · have hfailed := p.failed_of_deeper hdepth hv
    exact ⟨p.during_of_failed hfailed, hfailed⟩

/-- One more scope, if there is room for it. -/
theorem follows_inScope (scope : Scope) (hroom : w.held.length + 1 < Limits.scopes)
    (h : ∀ w, p.Follows x w) : p.Follows (inScope scope x) w := by
  have hx := h { w with held := scope :: w.held }
  -- The scope is closed however the rule ends, so the way out is known from either end.
  have hwalk : p.during w { (x.run { w with held := scope :: w.held }).walk with
      held := (x.run { w with held := scope :: w.held }).walk.held.tail } := by
    cases hrun : x.run { w with held := scope :: w.held } with
    | ok a v => exact p.during_of_past (p.past_of_scope hroom (hx.ok hrun)) (p.during_self _)
    | error failure v => exact p.during_of_failed (p.failed_of_scope hroom (hx.error hrun))
  constructor
  · rintro v (rfl | hv | rfl)
    · exact p.during_self _
    · exact p.during_of_scope hroom (hx.along v hv)
    · exact hwalk
  · simp only [inScope, between]
    cases hrun : x.run { w with held := scope :: w.held } with
    | ok a v => exact p.past_of_scope hroom (hx.ok hrun)
    | error failure v => exact p.failed_of_scope hroom (hx.error hrun)

/-- A loop, each round of which starts past those before. -/
theorem follows_repeatStep {step : α → Typer (Bool × α)} (hstep : ∀ a v, p.Follows (step a) v) (a : α)
    (w : ScopedWalk) : p.Follows (repeatStep step a) w :=
  (stage_past w).loop (fun a v hv => (stage_past w).run hv (hstep a v)) a (p.past_self w)

theorem follows_discardedOut (w : ScopedWalk) : p.Follows (discardedOut : Typer Bool) w := by
  refine follows_look ?_
  split
  · rename_i hout
    have hkind : w.cursor.current.kind = .identifier := by
      simp [Cursor.isOneOf] at hout
      exact hout.1
    refine follows_bind (follows_advance_of_kind hkind rfl) fun _ v _ => follows_demandThen fun ht => ?_
    exact follows_bind (follows_advance (p.plain_of_discard (by simpa using ht))) fun _ _ _ => follows_pure _
  · exact follows_pure _

theorem follows_dottedName (w : ScopedWalk) : p.Follows (dottedName : Typer String) w := by
  refine follows_repeatStep (fun name v => follows_look ?_) "" w
  split
  · rename_i hkind
    have hneutral : v.cursor.current.kind.isNeutral = true := by
      cases hk : v.cursor.current.kind <;> simp_all [TokenKind.isNeutral, TokenKind.isPlain, TokenKind.isNumber]
    exact follows_bind (follows_advance (p.plain_of_kind hneutral)) fun _ _ _ => follows_pure _
  · exact follows_pure _

theorem follows_aliasName (dotted : Bool) (w : ScopedWalk) :
    p.Follows (aliasName dotted : Typer String) w := by
  refine follows_requireThen fun hkind => ?_
  cases dotted with
  | true => exact follows_map (follows_dottedName w)
  | false =>
    refine follows_look ?_
    exact follows_bind (follows_advance_of_kind hkind rfl) fun _ _ _ => follows_pure _

end Course

end Typing

end TypeAhead
