/-
  TypeAhead.Proofs.Typing.Alike — TYPING READS NOTHING BUT TOKENS.

  Where two texts have the same tokens, their walks through the grammar of typing
  are twins: whatever stands in the one text for a type, a member or an operator
  stands in the other one, and what does not fit does not fit there either, at the
  same token.  Offsets are passed on only to say where a fault is.

      alike_bind      one rule after the other
      alike_body      the bodies of all rules, given their calls
      alike_run       every rule, with the same budget
-/
import TypeAhead.Proofs.Fragment.Calls
import TypeAhead.Typing.Compile

namespace TypeAhead.Typing

open Walker Twins

variable {p : Twins} {α β : Type}

/-! ## §1. Rules that do alike. -/

/-- From the same place in two texts, the two rules come to the same result. -/
structure Alike (p : Twins) (x y : Typer α) : Prop where
  same : ∀ {depth n w v}, p.Paired Eq depth n w v → p.Same Eq depth (Within n) (x.run w) (y.run v)

/-- Past the token where they start, which is not the end of the texts. -/
structure AlikePast (p : Twins) (x y : Typer α) : Prop where
  same : ∀ {depth n w v}, p.Paired Eq depth n w v → p.Same Eq depth (Past n) (x.run w) (y.run v)

/-- The same token, wherever it stands. -/
structure SameToken (p : Twins) (t t' : Token) : Prop where
  kind_eq : t'.kind = t.kind
  text_eq : t'.text = t.text
  start_eq : p.place t.start t'.start

variable {x y : Typer α} {f g : α → Typer β}

/-- Alike cursors stand on the same token. -/
theorem sameToken_of_alike {n : Nat} {c d : Cursor} (h : p.alike n c d) :
    SameToken p c.current d.current :=
  ⟨p.kind_eq h, p.text_eq h, p.start_eq h⟩

/-- What goes past a token does alike in particular. -/
theorem AlikePast.alike (h : AlikePast p x y) : Alike p x y := ⟨fun hw => (h.same hw).past⟩

/-- Rules that do alike one after the other.  They go on with the same result, so the second may depend on it.
-/
theorem alike_bind (hx : Alike p x y) (hf : ∀ a, Alike p (f a) (g a)) : Alike p (x >>= f) (y >>= g) :=
  ⟨fun h => same_then (hx.same h) fun a _ _ _ hm h => ((hf a).same h).within hm⟩

/-- It suffices that the first of two rules goes past a token. -/
theorem alikePast_bind (hx : AlikePast p x y) (hf : ∀ a, Alike p (f a) (g a)) :
    AlikePast p (x >>= f) (y >>= g) :=
  ⟨fun h => same_pastThen (hx.same h) fun a _ _ _ _ h => (hf a).same h⟩

theorem alike_pure (a : α) : Alike p (pure a) (pure a) := ⟨fun h => .ok h ⟨rfl, Nat.le_refl _⟩⟩

theorem alike_fail (cause : Cause) : Alike p (fail cause : Typer α) (fail cause) :=
  ⟨fun h => same_fail h rfl⟩

/-- A fault at offsets that correspond. -/
theorem alike_failAt {cause : Cause} {a b : Nat} (h : p.place a b) :
    Alike p (failAt a cause : Typer α) (failAt b cause) :=
  ⟨fun hw => same_failAt hw h⟩

/-- Results that agree, faults included. -/
theorem alike_ofExcept {e e' : Except Fault α} (h : Agree p.place Eq e e') :
    Alike p (ofExcept e) (ofExcept e') :=
  ⟨fun hw => same_ofExcept hw h fun _ _ hab => ⟨hab, Nat.le_refl _⟩⟩

theorem alike_map {g : α → β} (hx : Alike p x y) : Alike p (g <$> x) (g <$> y) :=
  alike_bind hx fun a => alike_pure (g a)

/-- What is seen of the current token is the same. -/
theorem alike_look {look' : Cursor → α} (hlook : Fragment.ReadsToken look') :
    Alike p (look look') (look look') := by
  refine ⟨fun {depth n w v} h => ?_⟩
  show p.Same Eq depth (Within n) (.ok (look' w.cursor) w) (.ok (look' v.cursor) v)
  rw [test_eq hlook h.alike]
  exact .ok h ⟨rfl, Nat.le_refl n⟩

/-- The kind of the current token is the same. -/
theorem alike_kind : Alike p (kind : Typer TokenKind) kind := alike_look fun _ _ hkind _ => hkind

theorem alike_isAny {kinds : List TokenKind} : Alike p (isAny kinds : Typer Bool) (isAny kinds) :=
  alike_look (Fragment.readsToken_isAny kinds)

theorem alike_isWord {word : String} : Alike p (isWord word : Typer Bool) (isWord word) :=
  alike_look (Fragment.readsToken_isWord word)

/-- Offsets correspond. -/
theorem alike_position {f g : Nat → Typer β} (hf : ∀ a b, p.place a b → Alike p (f a) (g b)) :
    Alike p (position >>= f) (position >>= g) :=
  ⟨fun h => (hf _ _ (p.start_eq h.alike)).same h⟩

/-- Offsets correspond, for a rule that goes past a token. -/
theorem alikePast_position {f g : Nat → Typer β}
    (hf : ∀ a b, p.place a b → AlikePast p (f a) (g b)) :
    AlikePast p (position >>= f) (position >>= g) :=
  ⟨fun h => (hf _ _ (p.start_eq h.alike)).same h⟩

/-- What follows a look at the current token may read its kind, its text and its place. -/
theorem alike_current {f g : Token → Typer β} (hf : ∀ t t', SameToken p t t' → Alike p (f t) (g t')) :
    Alike p (current >>= f) (current >>= g) :=
  ⟨fun h => (hf _ _ (sameToken_of_alike h.alike)).same h⟩

theorem alike_advance : Alike p (advance : Typer Unit) advance :=
  ⟨fun h => same_advance_within h⟩

/-- Going past a token of a kind. -/
theorem alikePast_expect {kind : TokenKind} (hkind : kind ≠ .finish) (cause : Cause) :
    AlikePast p (expect kind cause : Typer Unit) (expect kind cause) :=
  ⟨fun h => same_expect h hkind⟩

/-- Going past a token of a kind, where it does not matter that a token is left. -/
theorem alike_expect {kind : TokenKind} (hkind : kind ≠ .finish) (cause : Cause) :
    Alike p (expect kind cause : Typer Unit) (expect kind cause) :=
  AlikePast.alike (alikePast_expect hkind cause)

/-- Demanding a token of a kind reads that kind only. -/
theorem alike_require (kind : TokenKind) (cause : Cause) :
    Alike p (require kind cause : Typer Unit) (require kind cause) :=
  ⟨fun h => (same_demand h (Fragment.readsToken_isKind kind)).imp
    fun _ _ _ hm => ⟨rfl, Nat.le_of_eq hm.1⟩⟩

/-- Both walks are one level deeper, so that they meet the limit together. -/
theorem alike_nested (hx : Alike p x y) : Alike p (nested x) (nested y) :=
  ⟨fun h => same_nested h fun _ h => hx.same h⟩

theorem alike_scopes : Alike p scopes scopes := ⟨fun h => .ok h ⟨h.held, Nat.le_refl _⟩⟩

/-- The scope is the same in both walks, on the way in and on the way out. -/
theorem alike_inScope (scope : Scope) (hx : Alike p x y) : Alike p (inScope scope x) (inScope scope y) := by
  refine ⟨fun {depth n w v} h => ?_⟩
  have henter : p.Paired Eq depth n { w with held := scope :: w.held } { v with held := scope :: v.held } :=
    ⟨h.alike, h.depth_eq, congrArg (scope :: ·) h.held⟩
  have hleave : ∀ {m} {w v : Walk (List Scope)}, p.Paired Eq depth m w v →
      p.Paired Eq depth m { w with held := w.held.tail } { v with held := v.held.tail } :=
    fun h => ⟨h.alike, h.depth_eq, congrArg List.tail h.held⟩
  have hx := hx.same henter
  simp only [inScope, between]
  generalize x.run { w with held := scope :: w.held } = o at hx
  generalize y.run { v with held := scope :: v.held } = q at hx
  cases hx with
  | ok h hQ => exact .ok (hleave h) hQ
  | error h hf => exact .error (hleave h) hf

theorem alike_discardedOut : Alike p (discardedOut : Typer Bool) discardedOut :=
  ⟨fun h => (same_discardedOut h).imp fun _ _ _ hm => ⟨hm.1, hm.2.1⟩⟩

/-- The name after `as` is read from tokens alone. -/
theorem alike_aliasName (dotted : Bool) : Alike p (aliasName dotted : Typer String) (aliasName dotted) :=
  ⟨fun h => same_aliasName dotted h⟩

/-- What follows a test that has to hold, and something else where it does not. -/
theorem alike_unless {b : Bool} {x y : Typer Unit} {f g : Unit → Typer β} (hx : Alike p x y)
    (hf : Alike p (f ()) (g ())) :
    Alike p (if b then f () else x >>= f) (if b then g () else y >>= g) := by
  split
  · exact hf
  · exact alike_bind hx fun _ => hf

/-! ## §2. Loops. -/

/-- A round of a loop that does alike; where it asks for another one it has gone past a token. -/
structure AlikeRound (p : Twins) (x y : Typer (Bool × α)) : Prop where
  same : ∀ {depth n w v}, p.Paired Eq depth n w v →
    p.Same Eq depth (fun next next' k => next = next' ∧ k ≤ n ∧ (next.1 = true → k < n)) (x.run w)
      (y.run v)

/-- A round that goes past a token may go on or stop. -/
theorem AlikePast.round {x y : Typer (Bool × α)} (h : AlikePast p x y) : AlikeRound p x y :=
  ⟨fun hw => (h.same hw).imp fun _ _ _ hm => ⟨hm.1, Nat.le_of_lt hm.2, fun _ => hm.2⟩⟩

/-- The loop may stop where it stands. -/
theorem alikeRound_stop (a : α) : AlikeRound p (pure (false, a)) (pure (false, a)) :=
  ⟨fun h => .ok h ⟨rfl, Nat.le_refl _, nofun⟩⟩

/-- Offsets correspond in a round too. -/
theorem alikeRound_position {f g : Nat → Typer (Bool × β)}
    (hf : ∀ a b, p.place a b → AlikeRound p (f a) (g b)) :
    AlikeRound p (position >>= f) (position >>= g) :=
  ⟨fun h => (hf _ _ (p.start_eq h.alike)).same h⟩

/-- What comes before a round may go past tokens as well. -/
theorem alikeRound_bind {f g : α → Typer (Bool × β)} (hx : Alike p x y)
    (hf : ∀ a, AlikeRound p (f a) (g a)) : AlikeRound p (x >>= f) (y >>= g) := by
  refine ⟨fun {depth n w v} h => ?_⟩
  refine same_then (hx.same h) fun a m w' v' hm h => ((hf a).same h).imp fun _ _ k hk => ?_
  exact ⟨hk.1, Nat.le_trans hk.2.1 hm, fun ht => Nat.lt_of_lt_of_le (hk.2.2 ht) hm⟩

/-- A round that looks at the current token first: it stops, or goes past the token. -/
theorem alikeRound_look {look' : Cursor → α} (hlook : Fragment.ReadsToken look')
    {f g : α → Typer (Bool × β)}
    (hf : ∀ {depth n w v}, p.Paired Eq depth n w v →
      p.Same Eq depth (fun next next' k => next = next' ∧ k ≤ n ∧ (next.1 = true → k < n))
        ((f (look' w.cursor)).run w) ((g (look' w.cursor)).run v)) :
    AlikeRound p (look look' >>= f) (look look' >>= g) := by
  refine ⟨fun {depth n w v} h => ?_⟩
  show p.Same Eq depth _ ((f (look' w.cursor)).run w) ((g (look' v.cursor)).run v)
  rw [test_eq hlook h.alike]
  exact hf h

/-- A round that goes on past the current token, which is not the end of the texts. -/
theorem alikeRound_advance {f g : Unit → Typer (Bool × β)} (hf : Alike p (f ()) (g ()))
    {depth n : Nat} {w v : Walk (List Scope)} (h : p.Paired Eq depth n w v)
    (hw : w.cursor.current.isFinish = false) :
    p.Same Eq depth (fun next next' k => next = next' ∧ k ≤ n ∧ (next.1 = true → k < n))
      ((advance >>= f).run w) ((advance >>= g).run v) := by
  refine (same_pastThen (same_advance_past h hw) fun _ _ _ _ _ h => hf.same h).imp
    fun _ _ _ hm => ?_
  exact ⟨hm.1, Nat.le_of_lt hm.2, fun _ => hm.2⟩

/-- Loops whose rounds do alike.  Each round that goes on leaves fewer tokens, which is what the induction is
on. -/
theorem alike_repeatStep {step step' : α → Typer (Bool × α)}
    (hstep : ∀ a, AlikeRound p (step a) (step' a)) (a : α) :
    Alike p (repeatStep step a) (repeatStep step' a) :=
  ⟨fun h => same_loop (fun _ h => (hstep _).same h) a h⟩

/-! ## §3. Faults at an offset. -/

/-- Agreement under a weaker relation. -/
theorem Agree.imp {R R' : α → β → Prop} {e : Except Fault α} {e' : Except Fault β}
    (h : Agree p.place R e e') (hR : ∀ a b, R a b → R' a b) : Agree p.place R' e e' := by
  cases h with
  | ok h => exact .ok (hR _ _ h)
  | error hcause hplace => exact .error hcause hplace

section

variable {a b : Nat} {operator operator' : Token}

/-- Agreement is kept by what is made of a result. -/
theorem agree_map {e e' : Except Fault α} {f : α → β} (h : Agree p.place Eq e e') :
    Agree p.place Eq (e.map f) (e'.map f) := by
  cases h with
  | ok h => exact .ok (congrArg f h)
  | error hcause hplace => exact .error hcause hplace

/-- Whether a condition is boolean depends on its operand only. -/
theorem agree_requireBoolean (operand : Operand) (h : p.place a b) :
    Agree p.place Eq (SequenceOperator.requireBoolean operand a)
      (SequenceOperator.requireBoolean operand b) := by
  unfold SequenceOperator.requireBoolean
  split
  · exact .ok rfl
  · exact .error rfl h

/-- Whether an argument converts depends on its operand only. -/
theorem agree_requireConversion (r : Registry) (operand : Operand) (target : TypeDef)
    (h : p.place a b) : Agree p.place Eq (SequenceOperator.requireConversion r operand target a)
      (SequenceOperator.requireConversion r operand target b) := by
  unfold SequenceOperator.requireConversion
  split
  · exact .ok rfl
  · exact .error rfl h

/-- What is summed depends on the operand only. -/
theorem agree_total (isAverage : Bool) (operand : Operand) (h : p.place a b) :
    Agree p.place Eq (SequenceOperator.total isAverage operand a)
      (SequenceOperator.total isAverage operand b) := by
  unfold SequenceOperator.total
  simp only
  split
  · exact .error rfl h
  · split <;> exact .ok rfl

/-- The type of a call of a sequence operator depends on its arguments only. -/
theorem agree_result (r : Registry) (o : SequenceOperator) (name : String) (element : TypeDef)
    (arguments : List Operand) (h : p.place a b) :
    Agree p.place Eq (o.result r name element a arguments) (o.result r name element b arguments) := by
  cases o <;> rcases arguments with _ | ⟨operand, _ | ⟨_, _⟩⟩ <;>
    first
    | exact .ok rfl
    | exact .error rfl h
    | exact agree_map (agree_requireBoolean operand h)
    | exact agree_map (agree_requireConversion r operand _ h)
    | exact agree_total _ _ h

/-- Which constructor is found depends on the arguments only. -/
theorem agree_construct (r : Registry) (target : TypeDef) (arguments : List Operand) (h : p.place a b) :
    Agree p.place Eq (r.construct target arguments a) (r.construct target arguments b) := by
  unfold Registry.construct
  simp only
  repeat' split
  all_goals first | exact .ok rfl | exact .error rfl h

/-- The common type of two operands depends on them only. -/
theorem agree_unify (r : Registry) (left right : Operand) (h : p.place a b) :
    Agree p.place Eq (r.unify left right a) (r.unify left right b) := by
  unfold Registry.unify
  repeat' split
  · exact .ok rfl
  · exact .ok rfl
  · exact .ok rfl
  · exact .error rfl h

/-- The common type of any number of operands depends on them only. -/
theorem agree_unifyAll (r : Registry) (common : Option Operand) (operands : List Operand)
    (h : p.place a b) :
    Agree p.place Eq (r.unifyAll a common operands) (r.unifyAll b common operands) := by
  induction operands generalizing common with
  | nil => cases common <;> exact .ok rfl
  | cons operand operands ih =>
    cases common with
    | none => exact ih (some operand)
    | some common =>
      have hunify := agree_unify r common operand h
      simp only [Registry.unifyAll]
      generalize r.unify common operand a = e at hunify
      generalize r.unify common operand b = e' at hunify
      cases hunify with
      | ok h => exact h ▸ ih _
      | error hcause hplace => exact .error hcause hplace

/-- A fault of an operator names it and stands where it does. -/
theorem agree_incompatible (h : SameToken p operator operator') (left right : Operand) :
    Agree p.place (Eq : α → α → Prop) (.error (operator.incompatible left right))
      (.error (operator'.incompatible left right)) := by
  refine .error ?_ h.start_eq
  simp only [Token.incompatible, h.text_eq]

/-- What an operator makes of its operands depends on its kind and its text, and a fault is at its place. -/
theorem agree_operate (r : Registry) (o : Operator) (h : SameToken p operator operator')
    (left right : Operand) :
    Agree p.place Eq (r.operate o operator left right) (r.operate o operator' left right) := by
  unfold Registry.operate
  split
  · exact .ok rfl
  · exact agree_incompatible h left right

/-- What a prefix operator makes of its operand depends on its kind and its text. -/
theorem agree_operateUnary (h : SameToken p operator operator') (operand : Operand) :
    Agree p.place Eq (Registry.operateUnary operator operand)
      (Registry.operateUnary operator' operand) := by
  unfold Registry.operateUnary
  simp only [h.kind_eq]
  split
  · exact .ok rfl
  · exact .error (by rw [h.text_eq]) h.start_eq

/-- What `in` makes of a value and an element depends on them, and a fault is at the operator. -/
theorem agree_contained (r : Registry) (h : SameToken p operator operator') (left element : Operand) :
    Agree p.place Eq (r.contained operator left element) (r.contained operator' left element) := by
  unfold Registry.contained
  split
  · exact .ok rfl
  · exact agree_incompatible h left element

end

end TypeAhead.Typing
