/-
  TypeAhead.Proofs.Typing.Confined — RULES THAT DO NOT LEAVE THE TYPES THAT ARE REACHED.

  The types of a text are those that are reached from its context and from the
  types that it names itself: after the word `new`, or by a literal before a
  parenthesis.  A rule is confined to them if it starts in scopes over such types,
  and then comes to a result over such types in such scopes.  It may fail because
  of a type that is not found only if the text names that type, or a member of one
  of the types does; because of a literal that is not closed only where a row of
  literals has different quotes at its ends; and it refuses null propagation only
  where that stands.

      Writes               the names of types that a text writes
      Confined             what is promised of every rule
      confined_bind …      how rules are put together
-/
import TypeAhead.Proofs.Literal.Closed
import TypeAhead.Proofs.Types.Within
import TypeAhead.Proofs.Typing.Course

namespace TypeAhead

/-! ## §1. Causes that need no excuse. -/

namespace Registry

variable {r : Registry} {a b : Operand} {position : Nat} {fault : Fault}

/-- Two operands without a common type are no fault that needs an excuse. -/
theorem isPlain_of_unify (h : r.unify a b position = .error fault) :
    fault.cause.isPlain = true := by
  unfold unify at h
  repeat' split at h
  all_goals cases h
  rfl

/-- Any number of operands without a common type is no fault that needs an excuse, by induction on those that
are left. -/
theorem isPlain_of_unifyAll {operands : List Operand} {common : Option Operand}
    (h : r.unifyAll position common operands = .error fault) : fault.cause.isPlain = true := by
  induction operands generalizing common with
  | nil => cases common <;> cases h
  | cons a operands ih =>
    cases common with
    | none => exact ih h
    | some b =>
      rw [unifyAll] at h
      split at h
      · rename_i hunify
        cases h
        exact isPlain_of_unify hunify
      · exact ih h

/-- A constructor that is not found needs no excuse. -/
theorem isPlain_of_construct {t : TypeDef} {arguments : List Operand}
    (h : r.construct t arguments position = .error fault) : fault.cause.isPlain = true := by
  unfold construct at h
  dsimp only at h
  repeat' split at h
  all_goals cases h
  all_goals rfl

/-- Operands that do not go together need none. -/
theorem isPlain_of_operate {operator : Operator} {token : Token}
    (h : r.operate operator token a b = .error fault) : fault.cause.isPlain = true := by
  unfold operate at h
  split at h <;> cases h
  rfl

/-- An operand that a prefix operator does not take needs no excuse. -/
theorem isPlain_of_operateUnary {token : Token} (h : operateUnary token a = .error fault) :
    fault.cause.isPlain = true := by
  unfold operateUnary at h
  dsimp only at h
  split at h <;> cases h
  rfl

/-- A value that is no element needs no excuse. -/
theorem isPlain_of_contained {token : Token} (h : r.contained token a b = .error fault) :
    fault.cause.isPlain = true := by
  unfold contained at h
  split at h <;> cases h
  rfl

end Registry

namespace SequenceOperator

variable {r : Registry} {a : Operand} {position : Nat} {fault : Fault}

/-- A condition that is not boolean needs no excuse. -/
theorem isPlain_of_requireBoolean (h : requireBoolean a position = .error fault) :
    fault.cause.isPlain = true := by
  unfold requireBoolean at h
  split at h <;> cases h
  rfl

/-- A sum of what is no number needs no excuse. -/
theorem isPlain_of_total {isAverage : Bool} (h : total isAverage a position = .error fault) :
    fault.cause.isPlain = true := by
  unfold total at h
  dsimp only at h
  repeat' split at h
  all_goals cases h
  all_goals rfl

/-- A sequence operator fails for one of these reasons. -/
theorem isPlain_of_result {o : SequenceOperator} {name : String} {element : TypeDef}
    {arguments : List Operand} (h : o.result r name element position arguments = .error fault) :
    fault.cause.isPlain = true := by
  -- A result that is only checked fails where the check does.
  have hchecked : ∀ {e : Except Fault Unit} {d : Operand},
      (∀ {fault}, e = .error fault → fault.cause.isPlain = true) →
      (e.map fun _ => d) = .error fault → fault.cause.isPlain = true := by
    intro e d he h
    cases e <;> cases h
    exact he rfl
  have hconversion : ∀ {a : Operand} {t : TypeDef} {fault},
      requireConversion r a t position = .error fault → fault.cause.isPlain = true := by
    intro a t fault h
    unfold requireConversion at h
    split at h <;> cases h
    rfl
  unfold result at h
  -- One case for each operator: it checks something, or does not fail.
  split at h <;>
    first
      | exact hchecked isPlain_of_requireBoolean h
      | exact hchecked hconversion h
      | exact isPlain_of_total h
      | (cases h; rfl)
      | cases h

end SequenceOperator

/-! ## §2. Places in a text. -/

/-- The cursor is one to which reading leads, save that a number may have the minus that stands before
it for a part of its own. -/
inductive OnText (text : List Char) : Cursor → Prop where
  | read {past : List TokenKind} {c : Cursor} (h : Reaches text past c) : OnText text c
  | negated {past : List TokenKind} {m r : Cursor} (h : Reaches text past m)
      (hminus : m.current.kind = .minus) (hnext : m.next = .ok r) (hnumber : r.current.kind.isNumber = true) :
      OnText text { r with current := r.current.negated m.current }

/-- `WritesNumber text kind literal position`: the literal stands there in the text, or it stands behind a
minus that is there, with which it is written here. -/
def WritesNumber (text : List Char) (kind : TokenKind) (literal : String) (position : Nat) : Prop :=
  (∃ past c, Reaches text past c ∧ c.current = ⟨kind, literal, position⟩) ∨
    ∃ past m r, Reaches text past m ∧ m.current.kind = .minus ∧ m.current.start = position ∧
      m.next = .ok r ∧ r.current.kind = kind ∧ literal = "-" ++ r.current.text

namespace OnText

variable {text : List Char} {c d : Cursor} {past : List TokenKind}

/-- What is no number stands in the text as it is. -/
theorem reaches (h : OnText text c) (hkind : c.current.kind.isNumber = false) :
    ∃ past, Reaches text past c := by
  cases h with
  | read h => exact ⟨_, h⟩
  | negated _ _ _ hnumber => cases hnumber.symm.trans hkind

/-- Reading goes on: behind a number that took its minus stands what stood behind it before. -/
theorem next (h : OnText text c) (hnext : c.next = .ok d) : OnText text d := by
  by_cases hc : c.current.isFinish = true
  · rw [Cursor.next, if_pos hc] at hnext
    cases hnext
    exact h
  · have hc : c.current.isFinish = false := by simpa using hc
    cases h with
    | read h => exact .read (h.next hc hnext)
    | @negated past m r h hminus hread =>
      have hr : r.current.isFinish = false := hc
      have hsame : Cursor.next { r with current := r.current.negated m.current } = r.next :=
        Cursor.next_congr rfl rfl rfl rfl hr
      rw [hsame] at hnext
      exact .read ((h.next (Token.isFinish_of_kind hminus nofun) hread).next hr hnext)

/-- A number may take the minus before it. -/
theorem take_minus (h : OnText text c) (hminus : c.current.kind = .minus) (hnext : c.next = .ok d)
    (hnumber : d.current.kind.isNumber = true) :
    OnText text { d with current := d.current.negated c.current } := by
  obtain ⟨past, hreached⟩ := h.reaches (by rw [hminus]; rfl)
  exact .negated hreached hminus hnext hnumber

/-- A number is one that the text writes. -/
theorem writesNumber (h : OnText text c) (hnumber : c.current.kind.isNumber = true) :
    WritesNumber text c.current.kind c.current.text c.current.start := by
  cases h with
  | read h => exact .inl ⟨_, c, h, rfl⟩
  | negated h hminus hnext => exact .inr ⟨_, _, _, h, hminus, rfl, hnext, rfl, rfl⟩

end OnText

/-! ## §3. The names of types that a text writes. -/

/-- `Names c name d`: from `c` up to `d` stand the words of a name, with a dot or a plus between any
two of them. -/
inductive Names : Cursor → String → Cursor → Prop where
  | word {c d : Cursor} (hword : c.current.kind = .identifier) (hnext : c.next = .ok d) :
      Names c (plainName c.current.text) d
  | joined {c joint word d : Cursor} {name : String} (h : Names c name joint)
      (hjoint : joint.current.kind = .dot ∨ joint.current.kind = .plus) (hnext : joint.next = .ok word)
      (hword : word.current.kind = .identifier) (hnext' : word.next = .ok d) :
      Names c (name ++ "." ++ plainName word.current.text) d

/-- A parenthesis, possibly with a question mark before it. -/
def OpensCast (c : Cursor) : Prop :=
  c.current.kind = .openParen ∨
    c.current.kind = .question ∧ ∃ d, c.next = .ok d ∧ d.current.kind = .openParen

/-- The names of types that a text writes: between the word `new` and a bracket, and in a literal
before a parenthesis. -/
inductive Writes (dialect : Dialect) (text : List Char) : String → Prop where
  | created {past : List TokenKind} {c d e : Cursor} {name : String} (hc : Reaches text past c)
      (hword : c.current.kind = .identifier) (hnew : Text.lower (plainName c.current.text) = "new")
      (hnext : c.next = .ok d) (hname : Names d name e)
      (hbracket : e.isAny [.openParen, .openBracket, .openCurly] = true) : Writes dialect text name
  | cast {past : List TokenKind} {c d : Cursor} {name : String} (hc : Reaches text past c)
      (hliteral : c.current.kind = .stringLiteral) (hquote : c.current.text.toList.head? ≠ some '\'')
      (hnext : c.next = .ok d) (hopens : OpensCast d)
      (hvalue : Literal.value dialect c.current.start c.current.text = .ok name) :
      Writes dialect text name

namespace Typing

open Walker Registry

/-! ## §4. What is promised of every rule. -/

section

variable (s : Setting) (text : List Char)

/-- The types that the text names itself, be they accessible or not. -/
def Setting.Named (t : TypeDef) : Prop :=
  ∃ name, Writes s.parsing.dialect text name ∧ s.registry.get? name = some t

/-- The types that are reached from the context and from those that the text names itself. -/
def Setting.Attains (t : TypeDef) : Prop := s.registry.Within s.context (s.Named text) t

/-- The operand is of one of these types. -/
def Setting.Holds (a : Operand) : Prop := s.Attains text a.type

/-- The name of a type may be missing: the text writes it, or it is that of the type of a member and
means nothing. -/
def Setting.MayMiss (name : String) : Prop :=
  Writes s.parsing.dialect text name ∨
    (s.registry.get? name = none ∧ s.registry.IsMemberType s.context (s.Named text) name)

/-- A failure that the walk of the text may have.  Some causes need an excuse: that a type is not found
which may be missing, that a row of literals starts in other quotes than it ends in, that the text writes a
number of no type, and that a null propagation stands in the text. -/
def Setting.Excused : Failure → Prop
  | .fault ⟨.typeNotFound name, _⟩ => s.MayMiss text name
  | .fault ⟨.literalNotClosed, position⟩ => ∃ c d, MixedRow text c d ∧ c.current.start = position
  | .fault ⟨.invalidInteger literal, position⟩ =>
    WritesNumber text .integerLiteral literal position ∧ Literal.integerType? literal = none
  | .fault ⟨.invalidReal literal, position⟩ =>
    WritesNumber text .realLiteral literal position ∧ Literal.realType? literal = none
  | .fault fault => fault.cause.isPlain = true
  | .propagation position => Propagates text position
  | _ => False

/-- The walk is on the text, in scopes over types that are reached. -/
structure Sound (w : ScopedWalk) : Prop where
  cursor : OnText text w.cursor
  scopes : ∀ scope ∈ w.held, s.Attains text scope.it

/-- From a walk that is sound the rule comes to one with a result that is `Q`, or has an excuse. -/
def Confined {α : Type} (x : Typer α) (Q : α → Prop) (w : ScopedWalk) : Prop :=
  Ensures x w (fun _ => True) (fun a v => Q a ∧ Sound s text v) fun failure _ => s.Excused text failure

end

variable {s : Setting} {text : List Char} {α β : Type} {x : Typer α} {f : α → Typer β} {Q : α → Prop}
  {R : β → Prop} {w v : ScopedWalk} {c : Cursor} {cause : Cause} {position : Nat} {t : TypeDef}

/-- A plain fault is excused. -/
theorem excused_of_fault {fault : Fault} (h : fault.cause.isPlain = true) :
    s.Excused text (.fault fault) := by
  obtain ⟨cause, position⟩ := fault
  cases cause <;> first | exact h | cases h

/-- A walk that stands on `?.` stands on one of the text. -/
theorem Sound.propagates (h : Sound s text w) (hkind : w.cursor.current.kind = .propagate) :
    Propagates text w.cursor.current.start := by
  obtain ⟨past, hreached⟩ := h.cursor.reaches (by rw [hkind]; rfl)
  exact ⟨past, w.cursor, hreached, hkind, rfl⟩

/-- Another place on the text, in the same scopes. -/
theorem Sound.moved (h : Sound s text w) (hc : OnText text c) : Sound s text (w.moved c) :=
  ⟨hc, h.scopes⟩

/-- The next token is on the text. -/
theorem Sound.next (h : Sound s text w) (hnext : w.cursor.next = .ok c) : Sound s text (w.moved c) :=
  h.moved (h.cursor.next hnext)

/-- The type of `it` in any of the scopes. -/
theorem Sound.it (h : Sound s text w) {scopes : List Scope} (hscopes : ∀ scope ∈ scopes, scope ∈ w.held) :
    s.Attains text (s.it scopes) := by
  cases scopes with
  | nil => exact within_context
  | cons scope outer => exact h.scopes scope (hscopes scope List.mem_cons_self)

/-! ## §5. How rules are put together. -/

theorem confined_pure {a : α} (hw : Sound s text w) (ha : Q a) : Confined s text (pure a) Q w :=
  .pure trivial ⟨ha, hw⟩

/-- One rule after the other.  What `Q` says of the first result is known to the second rule. -/
theorem confined_bind (hx : Confined s text x Q w)
    (hf : ∀ a v, Q a → Sound s text v → Confined s text (f a) R v) : Confined s text (x >>= f) R w :=
  Ensures.bind hx fun a v hv => hf a v hv.1 hv.2

/-- A result that is changed. -/
theorem confined_map {g : α → β} (hx : Confined s text x Q w) (hg : ∀ a, Q a → R (g a)) :
    Confined s text (g <$> x) R w :=
  confined_bind hx fun a _ ha hv => confined_pure hv (hg a ha)

/-- What follows a look at the current token. -/
theorem confined_look {g : Cursor → α} (h : Confined s text (f (g w.cursor)) R w) :
    Confined s text (look g >>= f) R w :=
  Ensures.lookThen trivial h

theorem confined_scopes {f : List Scope → Typer β} (h : Confined s text (f w.held) R w) :
    Confined s text (scopes >>= f) R w := by
  have hscopes : Ensures scopes w (fun _ => True) (fun a v => a = w.held ∧ v = w)
      fun failure _ => s.Excused text failure := .move trivial trivial ⟨rfl, rfl⟩
  apply Ensures.bind hscopes
  rintro _ _ ⟨rfl, rfl⟩
  exact h

theorem confined_fail (h : cause.isPlain = true) : Confined s text (fail cause) Q w :=
  .fail trivial (excused_of_fault h)

theorem confined_failAt (h : cause.isPlain = true) : Confined s text (failAt position cause) Q w :=
  .failAt trivial (excused_of_fault h)

/-- Null propagation is refused where it stands. -/
theorem confined_refuse (hw : Sound s text w) (hkind : w.cursor.current.kind = .propagate) :
    Confined s text refuse Q w := .refuse trivial (hw.propagates hkind)

/-- Where a rule fails, nothing follows. -/
theorem confined_failThen (h : cause.isPlain = true) : Confined s text (fail cause >>= f) R w :=
  Ensures.stopThen trivial (excused_of_fault h)

theorem confined_failAtThen (h : cause.isPlain = true) :
    Confined s text (failAt position cause >>= f) R w :=
  Ensures.stopThen trivial (excused_of_fault h)

theorem confined_ofExcept {e : Except Fault α} (hw : Sound s text w) (hok : ∀ a, e = .ok a → Q a)
    (herror : ∀ {fault}, e = .error fault → fault.cause.isPlain = true) :
    Confined s text (ofExcept e) Q w :=
  .ofExcept trivial (fun a ha => ⟨hok a ha, hw⟩) fun _ h => excused_of_fault (herror h)

/-- What follows a computation knows its result. -/
theorem confined_ofExceptThen {e : Except Fault α}
    (herror : ∀ {fault}, e = .error fault → fault.cause.isPlain = true)
    (hf : ∀ a, e = .ok a → Confined s text (f a) R w) : Confined s text (ofExcept e >>= f) R w :=
  Ensures.ofExceptThen trivial (fun _ h => excused_of_fault (herror h)) hf

/-- Going on leads to the next token. -/
theorem sound_advance (hw : Sound s text w) :
    Ensures (advance : Typer Unit) w (fun _ => True)
      (fun _ v => ∃ c, w.cursor.next = .ok c ∧ v = w.moved c ∧ Sound s text v)
      fun failure _ => s.Excused text failure := by
  apply Ensures.advance trivial
  · exact fun c hnext => ⟨trivial, c, hnext, rfl, hw.next hnext⟩
  · exact fun fault h => excused_of_fault (Cursor.isPlain_of_next h)

theorem confined_advance (hw : Sound s text w) : Confined s text advance (fun _ => True) w := by
  apply (sound_advance hw).imp
  · exact fun _ _ ⟨_, _, _, hv⟩ => ⟨trivial, hv⟩
  · exact fun _ _ h => h

/-- What follows a change of the place in the text. -/
theorem confined_editThen {g : Cursor → Cursor} {f : Unit → Typer β}
    (h : Confined s text (f ()) R (w.moved (g w.cursor))) : Confined s text (edit g >>= f) R w := by
  have hedit : Ensures (edit g : Typer Unit) w (fun _ => True) (fun _ v => v = w.moved (g w.cursor))
      fun failure _ => s.Excused text failure := .edit trivial trivial rfl
  apply Ensures.bind hedit
  rintro _ _ rfl
  exact h

/-- What follows a demand knows that it is met. -/
theorem confined_demandThen {test : Cursor → Bool} {f : Unit → Typer β} (hcause : cause.isPlain = true)
    (hf : test w.cursor = true → Confined s text (f ()) R w) :
    Confined s text (demand test cause >>= f) R w :=
  .demandThen trivial hf fun _ => excused_of_fault hcause

/-- What follows a token of a kind knows that it stands there. -/
theorem confined_requireThen {kind : TokenKind} {f : Unit → Typer β} (hcause : cause.isPlain = true)
    (hf : w.cursor.current.kind = kind → Confined s text (f ()) R w) :
    Confined s text (require kind cause >>= f) R w :=
  confined_demandThen hcause fun ht => hf (by simpa [Cursor.isKind] using ht)

theorem confined_expect {kind : TokenKind} (hw : Sound s text w) (hcause : cause.isPlain = true) :
    Confined s text (expect kind cause) (fun _ => True) w :=
  confined_requireThen hcause fun _ => confined_advance hw

/-- The depth changes and the place does not. -/
theorem confined_nested (hw : Sound s text w)
    (h : ∀ w, Sound s text w → Confined s text x Q w) : Confined s text (nested x) Q w := by
  apply Ensures.nested trivial
  · exact fun _ => excused_of_fault rfl
  · intro _
    have hdeeper : Sound s text w.deeper := ⟨hw.cursor, hw.scopes⟩
    apply Ensures.imp (h w.deeper hdeeper)
    · exact fun a v hv => ⟨trivial, hv.1, hv.2.cursor, hv.2.scopes⟩
    · exact fun failure v hfailure => ⟨trivial, hfailure⟩

/-- A rule in a scope over a type that is reached. -/
theorem confined_inScope {scope : Scope} (hw : Sound s text w) (hscope : s.Attains text scope.it)
    (h : ∀ w, Sound s text w → Confined s text x Q w) : Confined s text (inScope scope x) Q w := by
  have hentered : Sound s text { w with held := scope :: w.held } := by
    refine ⟨hw.cursor, ?_⟩
    intro other hother
    rcases List.mem_cons.1 hother with heq | hother
    · rw [heq]
      exact hscope
    · exact hw.scopes other hother
  have hx := h _ hentered
  refine ⟨fun _ _ => trivial, ?_⟩
  simp only [inScope, between]
  cases hrun : x.run { w with held := scope :: w.held } with
  | ok a v =>
    obtain ⟨ha, hv⟩ := Ensures.ok hx hrun
    exact ⟨ha, hv.cursor, fun other hother => hv.scopes other (List.mem_of_mem_tail hother)⟩
  | error failure v => exact Ensures.error hx hrun

/-- A loop, of which `Q` holds before each round and after the last one. -/
theorem confined_repeatStep {step : α → Typer (Bool × α)} {a : α} (hw : Sound s text w) (ha : Q a)
    (hstep : ∀ a v, Q a → Sound s text v → Confined s text (step a) (fun next => Q next.2) v) :
    Confined s text (repeatStep step a) Q w := by
  apply Ensures.repeatStep (J := fun a v => Q a ∧ Sound s text v)
  · exact fun _ _ _ => trivial
  · exact fun _ _ _ => excused_of_fault rfl
  · intro a v hv
    apply Ensures.imp (hstep a v hv.1 hv.2)
    · intro next u hu
      split
      · exact hu
      · exact ⟨trivial, hu⟩
    · exact fun failure u hfailure => hfailure
  · exact ⟨ha, hw⟩

theorem confined_discardedOut (hw : Sound s text w) :
    Confined s text discardedOut (fun _ => True) w := by
  apply confined_look
  split
  · apply confined_bind (confined_advance hw)
    intro _ v _ hv
    apply confined_demandThen rfl
    intro _
    apply confined_bind (confined_advance hv)
    intro _ u _ hu
    exact confined_pure hu trivial
  · exact confined_pure hw trivial

/-- A name between dots is only read. -/
theorem confined_dottedName (hw : Sound s text w) : Confined s text dottedName (fun _ => True) w := by
  apply confined_repeatStep hw trivial
  intro name v _ hv
  apply confined_look
  split
  · apply confined_bind (confined_advance hv)
    intro _ u _ hu
    exact confined_pure hu trivial
  · exact confined_pure hv trivial

/-- The name after `as` is only read. -/
theorem confined_aliasName (dotted : Bool) (hw : Sound s text w) :
    Confined s text (aliasName dotted) (fun _ => True) w := by
  apply confined_requireThen rfl
  intro _
  cases dotted with
  | true => exact confined_map (confined_dottedName hw) fun _ _ => trivial
  | false =>
    apply confined_look
    apply confined_bind (confined_advance hw)
    intro _ v _ hv
    exact confined_pure hv trivial

end Typing

end TypeAhead
