/-
  TypeAhead.Proofs.Typing.Spelled — WHEN CASE MAY BE IGNORED.

  An expression that is typed with regard to case is typed without it to the same
  type, unless it looks up a name that then means something else: a member of
  another spelling, which comes first or joins in.  A member that is written with
  its exact spelling is not preferred.

      LooksUp              the names that an operand looks up, and where
      MeetsOther           the expression comes to such a name
      compile_ignoreCase   typing without regard to case
-/
import TypeAhead.Proofs.Types.Finding
import TypeAhead.Proofs.Types.History
import TypeAhead.Proofs.Typing.Hinges
import TypeAhead.Proofs.Typing.SameType

namespace TypeAhead.Typing

open Walker

/-- The setting in which members are found with or without regard to case. -/
def Setting.withCase (s : Setting) (ignoreCase : Bool) : Setting :=
  { s with parsing := { s.parsing with ignoreCase } }

namespace Rule

/-! ## §1. Names that are looked up. -/

section

variable (s : Setting) (call : Rule → Typer Operand)

/-- What has been read of the operand that starts at a walk, and how far. -/
inductive ReadTo (w : ScopedWalk) : Operand → ScopedWalk → Prop where
  | primary {a : Operand} {u : ScopedWalk} (h : (primary s call).run w = .ok a u) : ReadTo w a u
  | attached {a b : Operand} {u v : ScopedWalk} (h : ReadTo w a u)
      (hstep : (attachedStep s call a).run u = .ok (true, b) v) : ReadTo w b v

end

/-- The cursor stands on the name, which is to be called or not. -/
def StandsOn (c : Cursor) (name : String) (isCall : Bool) : Prop :=
  c.current.kind = .identifier ∧ plainName c.current.text = name ∧
    ∃ d, c.next = .ok d ∧ (d.current.kind == .openParen) = isCall

/-- The words that are no names. -/
def keywords : List String := ["it", "parent", "outerit", "true", "false", "null", "iif", "np", "new"]

/-- The walk stands on a word that is no keyword and no parameter, and so is a name. -/
def OpensName (w : ScopedWalk) : Prop :=
  w.cursor.current.kind = .identifier ∧
    Text.lower (plainName w.cursor.current.text) ∉ keywords ∧
    w.held.find? (fun scope => scope.parameter == some (plainName w.cursor.current.text)) = none

/-- A word that is no keyword is a name. -/
theorem run_word {s : Setting} {call : Rule → Typer Operand} {w : ScopedWalk} (hword : OpensName w) :
    (word s call).run w = (name s call (s.it w.held)).run w := by
  obtain ⟨-, hkeyword, hparameter⟩ := hword
  have hne : ∀ k ∈ keywords, Text.lower (plainName w.cursor.current.text) ≠ k := by
    rintro k hk rfl
    exact hkeyword hk
  unfold word
  rw [run_bind_of_ok (show scopes.run w = .ok w.held w from rfl),
    run_bind_of_ok (show current.run w = .ok w.cursor.current w from rfl)]
  dsimp only
  split
  iterate 9 exact absurd ‹_› (hne _ (by decide))
  rw [hparameter]

/-- The names that the operand that starts at a walk looks up outside of brackets, with the types in which
it does so: after the name of a type, as a bare name, and after a dot. -/
inductive LooksUp (s : Setting) (call : Rule → Typer Operand) (w : ScopedWalk) :
    TypeDef → String → Binding → Bool → Prop where
  | inType {t : TypeDef} {u : ScopedWalk} {c : Cursor} {name : String} {isCall : Bool}
      (hword : OpensName w) (htype : (typeName s).run w = .ok (some t) u)
      (hdot : u.cursor.current.kind = .dot) (hnext : u.cursor.next = .ok c)
      (hname : StandsOn c name isCall) : LooksUp s call w t name .ofType isCall
  | inIt {u : ScopedWalk} {name : String} {isCall : Bool} (hword : OpensName w)
      (hnone : (typeName s).run w = .ok none u) (hname : StandsOn w.cursor name isCall) :
      LooksUp s call w (s.it w.held) name .ofInstance isCall
  | inOperand {a : Operand} {u : ScopedWalk} {c : Cursor} {name : String} {isCall : Bool}
      (ha : ReadTo s call w a u) (hdot : u.cursor.current.kind = .dot) (hnext : u.cursor.next = .ok c)
      (hname : StandsOn c name isCall) : LooksUp s call w a.type name .ofInstance isCall

/-- The operand that starts at the walk looks up a name that finds a member of another spelling, if case
is ignored. -/
def FindsOther (s : Setting) (call : Rule → Typer Operand) (w : ScopedWalk) : Prop :=
  ∃ t name binding isCall, LooksUp s call w t name binding isCall ∧
    ¬ s.registry.FindsSpelled t name binding isCall

/-- What the rule comes to hinges on an operand that does so: on itself, if it is that of operands, or on
one that it calls for. -/
def MeetsOther (s : Setting) : Nat → Rule → ScopedWalk → Prop
  | 0, _, _ => False
  | budget + 1, r, w =>
    (r = .operand ∧ FindsOther s (run s budget) w) ∨ HingesOn s (run s budget) r w (MeetsOther s budget)

/-! ## §2. Arguments. -/

variable {α β : Type} {excuse : Prop} {s : Setting} {c c₁ c₂ : Rule → Typer Operand} {w : ScopedWalk}
  {x z y : Typer α} {f h g : α → Typer β}

/-- With an excuse nothing has to be shown. -/
theorem kept_of_excuse (he : excuse) : Kept excuse x z y w := fun _ _ _ => .inr (.inr he)

/-- What follows a demand knows that it is met. -/
theorem kept_require {kind : TokenKind} {cause : Cause} {f h g : Unit → Typer β}
    (hf : w.cursor.current.kind = kind → Kept excuse (f ()) (h ()) (g ()) w) :
    Kept excuse (require kind cause >>= f) (require kind cause >>= h) (require kind cause >>= g) w := by
  apply kept_then
  intro _ u hu
  unfold require demand at hu
  change (if w.cursor.isKind kind then pure () else fail cause : Typer Unit).run w = _ at hu
  by_cases hkind : w.cursor.isKind kind = true
  · rw [if_pos hkind] at hu
    cases hu
    exact hf (by simpa [Cursor.isKind] using hkind)
  · rw [if_neg hkind] at hu
    cases hu

/-- What follows a step starts at the next token. -/
theorem kept_advance {f h g : Unit → Typer β}
    (hf : ∀ d, w.cursor.next = .ok d → Kept excuse (f ()) (h ()) (g ()) (w.moved d)) :
    Kept excuse (advance >>= f) (advance >>= h) (advance >>= g) w := by
  apply kept_then
  intro _ u hu
  obtain ⟨d, hnext, rfl⟩ := eq_ok_of_advance hu
  exact hf d hnext

/-- The calls of a body are kept. -/
def KeptCalls (excuse : Prop) (c c₁ c₂ : Rule → Typer Operand) : Prop :=
  ∀ r w, Kept excuse (c r) (c₁ r) (c₂ r) w

section

variable (hcall : KeptCalls excuse c c₁ c₂)

include hcall

/-- An argument is kept if the expression in it is. -/
theorem kept_argument : Kept excuse (argument c) (argument c₁) (argument c₂) w := by
  apply kept_then
  intro found u _
  split
  · exact kept_self _ u
  · exact hcall conditional u

/-- Arguments between commas. -/
theorem kept_arguments : Kept excuse (arguments c) (arguments c₁) (arguments c₂) w := by
  apply kept_bind (kept_argument hcall)
  intro first u _
  apply kept_loop
  intro read u
  apply kept_look
  split
  · apply kept_then
    intro _ u _
    exact kept_bind (kept_argument hcall) fun _ u _ => kept_self _ u
  · exact kept_self _ u

omit hcall in
/-- What stands in parentheses, with any rule after it. -/
theorem kept_inParentheses {x z y : Typer (List Operand)} (hx : ∀ u, Kept excuse x z y u)
    (f : List Operand → Typer β) :
    Kept excuse (inParentheses x f) (inParentheses z f) (inParentheses y f) w := by
  apply kept_then
  intro _ u _
  apply kept_look
  dsimp only
  split
  · exact kept_self _ u
  · exact kept_bind (hx u) fun _ u _ => kept_self _ u

theorem kept_argumentList : Kept excuse (argumentList c) (argumentList c₁) (argumentList c₂) w :=
  kept_inParentheses (fun _ => kept_arguments hcall) pure

/-! ## §3. Members. -/

theorem kept_sequenceBody (element : TypeDef) :
    Kept excuse (sequenceBody c element) (sequenceBody c₁ element) (sequenceBody c₂ element) w := by
  apply kept_scopes
  dsimp only
  split
  · apply kept_then
    intro _ u hu
    cases hu
  · apply kept_then
    intro parameter u _
    exact kept_between (hcall conditional _)

/-- What a sequence operator is called with. -/
theorem kept_calledWith (o : SequenceOperator) (element : TypeDef) :
    Kept excuse (calledWith c o element) (calledWith c₁ o element) (calledWith c₂ o element) w := by
  unfold calledWith
  split
  · exact kept_map (kept_sequenceBody hcall element)
  · exact kept_arguments hcall

/-- Which sequence operator it is has been found before, so that case is of no more effect. -/
theorem kept_sequenceCall (o : SequenceOperator) (element : TypeDef) (name : String) :
    Kept excuse (sequenceCall s c o element name) (sequenceCall s c₁ o element name)
      (sequenceCall (s.withCase true) c₂ o element name) w := by
  rw [sequenceCall_eq, sequenceCall_eq, sequenceCall_eq]
  apply kept_look
  exact kept_inParentheses (fun _ => kept_calledWith hcall o element) _

/-- The overloads have been found before as well. -/
theorem kept_methodCall (owner : TypeDef) (methods : List Method) (name : String) (position : Nat) :
    Kept excuse (methodCall s c owner methods name position) (methodCall s c₁ owner methods name position)
      (methodCall (s.withCase true) c₂ owner methods name position) w :=
  kept_bind (kept_argumentList hcall) fun _ u _ => kept_self _ u

omit hcall in
/-- Without a method nothing is called. -/
theorem kept_methodCall_nil {z y : Typer Operand} (owner : TypeDef) (name : String) (position : Nat) :
    Kept excuse (methodCall s c owner [] name position) z y w := by
  apply kept_of_fails
  intro read u a t hrun
  cases hrun

omit hcall in
/-- A type has the same operators of sequences. -/
theorem sequenceOperator?_ignoreCase (hs : s.parsing.ignoreCase = false) {owner element : TypeDef}
    {name : String} {o : SequenceOperator} (h : sequenceOperator? s owner name = some (element, o)) :
    sequenceOperator? (s.withCase true) owner name = some (element, o) := by
  unfold sequenceOperator? at h ⊢
  rw [hs] at h
  split at h
  · rename_i helement ho
    cases h
    have htype : (s.withCase true).registry.elementType? owner = some element := helement
    have hname : SequenceOperator.ofName? name (s.withCase true).parsing.ignoreCase = some o :=
      SequenceOperator.ofName?_ignoreCase ho
    rw [htype, hname]
  · cases h

/-- A member of a type, the name of which finds members of its own spelling. -/
theorem kept_memberAccess (hs : s.parsing.ignoreCase = false) (owner : TypeDef) (binding : Binding)
    (hspelled : ∀ name isCall, StandsOn w.cursor name isCall →
      s.registry.FindsSpelled owner name binding isCall ∨ excuse) :
    Kept excuse (memberAccess s c owner binding) (memberAccess s c₁ owner binding)
      (memberAccess (s.withCase true) c₂ owner binding) w := by
  apply kept_require
  intro hkind
  apply kept_look
  apply kept_advance
  intro d hnext
  apply kept_look
  rcases hspelled _ _ ⟨hkind, rfl, d, hnext, rfl⟩ with hfinds | he
  -- A call looks for methods, and any other name for a member; a name is spelled for what it is.
  · by_cases hopen : d.current.kind = .openParen
    · rw [if_pos hopen, if_pos hopen, if_pos hopen]
      have hcalled : (d.current.kind == .openParen) = true := by simpa using hopen
      rw [hcalled] at hfinds
      -- Spelled exactly, the methods are the same ones in either case.
      have hmethods : (s.withCase true).registry.findMethods owner (plainName w.cursor.current.text) binding
          (s.withCase true).parsing.ignoreCase =
            s.registry.findMethods owner (plainName w.cursor.current.text) binding
              s.parsing.ignoreCase := by
        rw [hs]
        exact hfinds.findMethods
      dsimp only
      rw [hmethods]
      generalize s.registry.findMethods owner (plainName w.cursor.current.text) binding
        s.parsing.ignoreCase = methods
      by_cases hnone : (methods.isEmpty && decide (binding = .ofInstance)) = true
      · rw [if_pos hnone, if_pos hnone]
        cases hoperator : sequenceOperator? s owner (plainName w.cursor.current.text) with
        | some found =>
          obtain ⟨element, o⟩ := found
          rw [sequenceOperator?_ignoreCase hs hoperator]
          exact kept_sequenceCall hcall o element _
        | none =>
          -- Without an operator there has to be a method.
          have hnil : methods = [] := by
            rw [Bool.and_eq_true, List.isEmpty_iff] at hnone
            exact hnone.1
          rw [hnil]
          exact kept_methodCall_nil owner _ _
      · rw [if_neg hnone, if_neg hnone]
        exact kept_methodCall hcall owner methods _ _
    · rw [if_neg hopen, if_neg hopen, if_neg hopen]
      have hvalue : (d.current.kind == .openParen) = false := by simpa using hopen
      rw [hvalue] at hfinds
      rw [hs]
      cases hmember : s.registry.findMember? owner (plainName w.cursor.current.text) binding false with
      | some m =>
        have hsame : (s.withCase true).registry.findMember? owner (plainName w.cursor.current.text)
            binding (s.withCase true).parsing.ignoreCase = some m := hfinds.findMember? hmember
        rw [hsame]
        exact kept_self _ _
      | none =>
        intro a u hrun
        cases hrun
  · exact kept_of_excuse he

/-- An index looks up no name. -/
theorem kept_elementAccess (owner : TypeDef) :
    Kept excuse (elementAccess s c owner) (elementAccess s c₁ owner)
      (elementAccess (s.withCase true) c₂ owner) w := by
  apply kept_look
  apply kept_then
  intro _ u _
  exact kept_bind (kept_arguments hcall) fun _ u _ => kept_self _ u

/-! ## §4. Keywords. -/

theorem kept_choice : Kept excuse (choice s c) (choice s c₁) (choice (s.withCase true) c₂) w := by
  apply kept_look
  apply kept_then
  intro _ u _
  exact kept_bind (kept_argumentList hcall) fun _ u _ => kept_self _ u

theorem kept_nullPropagation :
    Kept excuse (nullPropagation s c) (nullPropagation s c₁) (nullPropagation (s.withCase true) c₂) w := by
  apply kept_look
  apply kept_then
  intro _ u _
  exact kept_bind (kept_argumentList hcall) fun _ u _ => kept_self _ u

/-- The members of what is made. -/
theorem kept_createdMembers (isArray : Bool) :
    Kept excuse (createdMembers s c isArray) (createdMembers s c₁ isArray)
      (createdMembers (s.withCase true) c₂ isArray) w := by
  refine kept_bind (kept_loop _ ?_) fun _ u _ => kept_self _ u
  intro members u
  apply kept_then
  intro ends u _
  split
  · exact kept_self _ u
  · apply kept_look
    exact kept_bind (hcall conditional u) fun a u _ => kept_self _ u

/-- What stands after `new` and a type. -/
theorem kept_createdBody (target : Option TypeDef) (position : Nat) :
    Kept excuse (createdBody s c target position) (createdBody s c₁ target position)
      (createdBody (s.withCase true) c₂ target position) w := by
  apply kept_then
  intro isArray u _
  apply kept_then
  intro _ u _
  exact kept_bind (kept_createdMembers hcall isArray) fun _ u _ => kept_self _ u

/-- The type after `new` is found by its full name, with regard to case in both settings. -/
theorem kept_creation : Kept excuse (creation s c) (creation s c₁) (creation (s.withCase true) c₂) w := by
  apply kept_look
  apply kept_then
  intro _ u _
  apply kept_then
  intro found u _
  dsimp only
  split
  · apply kept_look
    split
    · apply kept_look
      apply kept_then
      intro name u _
      -- Types are found by their exact names in either case.
      have hsame : registered? (s.withCase true) name = registered? s name := rfl
      rw [hsame]
      cases registered? s name with
      | none => exact kept_self _ u
      | some t =>
        apply kept_look
        split
        · exact kept_bind (kept_argumentList hcall) fun _ u _ => kept_self _ u
        · exact kept_createdBody hcall _ _
    · exact kept_createdBody hcall _ _
  · intro a u hrun
    cases hrun

/-! ## §5. Words and literals. -/

/-- After the name of a type a dot may stand, and behind it a name is looked up. -/
theorem kept_typeAccess (hs : s.parsing.ignoreCase = false) (t : TypeDef) (position : Nat)
    (hspelled : ∀ d name isCall, w.cursor.current.kind = .dot → w.cursor.next = .ok d →
      StandsOn d name isCall → s.registry.FindsSpelled t name .ofType isCall ∨ excuse) :
    Kept excuse (typeAccess s c t position) (typeAccess s c₁ t position)
      (typeAccess (s.withCase true) c₂ t position) w := by
  apply kept_look
  split
  · exact kept_bind (kept_argumentList hcall) fun _ u _ => kept_self _ u
  · rename_i hdot
    apply kept_advance
    intro d hnext
    exact kept_memberAccess hcall hs t .ofType fun name isCall => hspelled d name isCall hdot hnext
  · exact kept_self _ w

omit hcall in
/-- Types are found with regard to case in both settings. -/
theorem qualifiedType?_withCase (ignoreCase : Bool) (qualified : String) (d : Cursor) (budget : Nat) :
    qualifiedType? (s.withCase ignoreCase) qualified d budget = qualifiedType? s qualified d budget := by
  induction budget generalizing qualified d with
  | zero => rfl
  | succ budget ih =>
    rw [qualifiedType?, qualifiedType?]
    simp only [ih]
    rfl

omit hcall in
/-- The names of types have a case. -/
theorem typeName_withCase (ignoreCase : Bool) : typeName (s.withCase ignoreCase) = typeName s := by
  unfold typeName
  simp only [qualifiedType?_withCase]
  rfl

omit hcall in
/-- Where no type is named the walk stays. -/
theorem eq_of_typeName_none {u : ScopedWalk} (h : (typeName s).run w = .ok none u) : u = w := by
  obtain ⟨d, v, hd, h⟩ := eq_ok_of_bind h
  cases hd
  dsimp only at h
  split at h
  · obtain ⟨_, v, -, h⟩ := eq_ok_of_bind h
    cases h
  · split at h
    · obtain ⟨found, v, hfound, h⟩ := eq_ok_of_bind h
      split at h
      · obtain ⟨_, v, -, h⟩ := eq_ok_of_bind h
        obtain ⟨_, v, -, h⟩ := eq_ok_of_bind h
        cases h
      · cases h
        generalize qualifiedType? s _ _ _ = e at hfound
        cases e <;> cases hfound
        rfl
    · cases h
      rfl

omit hcall in
/-- Of the next token something is asked, and the walk stays where it is. -/
theorem run_peek_eq_ok_iff (test : Token → Bool) {b : Bool} {u : ScopedWalk} :
    (do
      let next ← ofExcept w.cursor.peek
      pure (test next) : Typer Bool).run w = .ok b u ↔
        u = w ∧ ∃ d, w.cursor.next = .ok d ∧ test d.current = b := by
  unfold Cursor.peek
  cases w.cursor.next with
  | error fault => exact ⟨nofun, nofun⟩
  | ok d =>
    constructor
    · intro h
      cases h
      exact ⟨rfl, d, rfl, rfl⟩
    · rintro ⟨rfl, _, hd, rfl⟩
      cases hd
      rfl

omit hcall in
/-- When a word can be a member. -/
theorem hasMember_eq_true_iff {t : TypeDef} {name : String} {u : ScopedWalk} :
    (hasMember s t name).run w = .ok true u ↔ u = w ∧
      ((s.registry.findMember? t name .ofInstance s.parsing.ignoreCase).isSome = true ∨
        s.registry.findMethods t name .ofInstance s.parsing.ignoreCase ≠ [] ∨
        ∃ d, w.cursor.next = .ok d ∧ d.current.kind = .openParen ∧
          (sequenceOperator? s t name).isSome = true) := by
  unfold hasMember
  dsimp only
  by_cases hmember : ((s.registry.findMember? t name .ofInstance s.parsing.ignoreCase).isSome ||
      !(s.registry.findMethods t name .ofInstance s.parsing.ignoreCase).isEmpty) = true
  · rw [if_pos hmember]
    rw [Bool.or_eq_true, Bool.not_eq_true', List.isEmpty_eq_false_iff] at hmember
    constructor
    · rintro ⟨⟩
      exact ⟨rfl, hmember.imp_right .inl⟩
    · rintro ⟨rfl, -⟩
      rfl
  · rw [if_neg hmember]
    rw [Bool.or_eq_true, Bool.not_eq_true', List.isEmpty_eq_false_iff] at hmember
    -- Without a member or method the walk looks one token ahead for a bracket.
    refine (run_peek_eq_ok_iff fun next =>
      next.kind == .openParen && (sequenceOperator? s t name).isSome).trans ?_
    simp only [Bool.and_eq_true, beq_iff_eq]
    constructor
    · rintro ⟨rfl, h⟩
      exact ⟨rfl, .inr (.inr h)⟩
    · rintro ⟨rfl, h | h | h⟩
      · exact absurd (.inl h) hmember
      · exact absurd (.inr h) hmember
      · exact ⟨rfl, h⟩

omit hcall in
/-- A type with a member of a name has one without regard to case. -/
theorem hasMember_ignoreCase (hs : s.parsing.ignoreCase = false) {t : TypeDef} {name : String}
    {u : ScopedWalk} (h : (hasMember s t name).run w = .ok true u) :
    (hasMember (s.withCase true) t name).run w = .ok true u ∧ u = w := by
  obtain ⟨rfl, h⟩ := hasMember_eq_true_iff.1 h
  rw [hs] at h
  refine ⟨hasMember_eq_true_iff.2 ⟨rfl, ?_⟩, rfl⟩
  rcases h with hmember | hmethods | ⟨d, hnext, hopen, hoperator⟩
  · exact .inl (Registry.isSome_findMember?_ignoreCase hmember)
  · exact .inr (.inl (Registry.findMethods_ignoreCase_ne_nil hmethods))
  · obtain ⟨found, hfound⟩ := Option.isSome_iff_exists.1 hoperator
    refine .inr (.inr ⟨d, hnext, hopen, ?_⟩)
    rw [sequenceOperator?_ignoreCase hs hfound]
    rfl

omit hcall in
/-- What follows a test that has to hold. -/
theorem kept_unless {x y : Typer Bool} {cause : Cause} {f h g : Unit → Typer β}
    (hx : ∀ u, x.run w = .ok true u → y.run w = .ok true u)
    (hf : ∀ u, x.run w = .ok true u → Kept excuse (f ()) (h ()) (g ()) u) :
    Kept excuse (x >>= fun b => if b = true then f () else fail cause >>= f)
      (x >>= fun b => if b = true then h () else fail cause >>= h)
      (y >>= fun b => if b = true then g () else fail cause >>= g) w := by
  intro a t hrun
  obtain ⟨b, u, hxw, hrest⟩ := eq_ok_of_bind hrun
  cases b with
  | false => cases hrest
  | true =>
    rw [run_bind_of_ok hxw, run_bind_of_ok (hx u hxw)]
    exact hf u hxw a t hrest

/-- A name is looked up in the type that it follows, or in `it` if it is no type. -/
theorem kept_name (hs : s.parsing.ignoreCase = false) (it : TypeDef)
    (htype : ∀ t u d name isCall, (typeName s).run w = .ok (some t) u → u.cursor.current.kind = .dot →
      u.cursor.next = .ok d → StandsOn d name isCall →
        s.registry.FindsSpelled t name .ofType isCall ∨ excuse)
    (hit : ∀ u name isCall, (typeName s).run w = .ok none u → StandsOn w.cursor name isCall →
      s.registry.FindsSpelled it name .ofInstance isCall ∨ excuse) :
    Kept excuse (name s c it) (name s c₁ it) (name (s.withCase true) c₂ it) w := by
  unfold name
  rw [typeName_withCase]
  apply kept_look
  apply kept_then
  intro found u hu
  cases found with
  | some t => exact kept_typeAccess hcall hs t _ fun d name isCall => htype t u d name isCall hu
  | none =>
    -- A rule that finds no type has not moved.
    cases eq_of_typeName_none hu
    apply kept_unless
    · exact fun u hu => (hasMember_ignoreCase hs hu).1
    · intro u hu'
      cases (hasMember_ignoreCase hs hu').2
      exact kept_memberAccess hcall hs it .ofInstance fun name isCall => hit w name isCall hu

/-- Only a word that is no keyword and no parameter looks up a name. -/
theorem kept_word (hs : s.parsing.ignoreCase = false) (hkind : w.cursor.current.kind = .identifier)
    (hspelled : ∀ t name binding isCall, LooksUp s c w t name binding isCall →
      s.registry.FindsSpelled t name binding isCall ∨ excuse) :
    Kept excuse (word s c) (word s c₁) (word (s.withCase true) c₂) w := by
  apply kept_scopes
  apply kept_look
  dsimp only
  split
  · exact kept_self _ w
  iterate 2
    cases w.held with
    | nil => exact kept_self _ w
    | cons scope outer => exact kept_self _ w
  iterate 3 exact kept_self _ w
  · exact kept_choice hcall
  · exact kept_nullPropagation hcall
  · exact kept_creation hcall
  · rename_i hit hparent houter htrue hfalse hnull hiif hnp hnew
    cases hparameter : w.held.find? fun scope =>
      scope.parameter == some (plainName w.cursor.current.text) with
    | some scope => exact kept_self _ w
    | none =>
      -- A word that is none of the above opens a name.
      have hword : OpensName w := by
        refine ⟨hkind, ?_, hparameter⟩
        simp only [keywords, List.mem_cons, List.not_mem_nil, or_false, not_or]
        exact ⟨hit, hparent, houter, htrue, hfalse, hnull, hiif, hnp, hnew⟩
      apply kept_name hcall hs
      · exact fun t u d name isCall htype hdot hnext hname =>
          hspelled _ _ _ _ (.inType hword htype hdot hnext hname)
      · exact fun u name isCall hnone hname => hspelled _ _ _ _ (.inIt hword hnone hname)

/-- What follows a literal: the parenthesis of a construction, or more literals. -/
theorem kept_textRest (token : Token) (ahead : Cursor) :
    Kept excuse (textRest s c token ahead) (textRest s c₁ token ahead)
      (textRest (s.withCase true) c₂ token ahead) w := by
  apply kept_then
  intro value u _
  split
  · exact kept_self _ u
  · split
    · apply kept_then
      intro _ u _
      exact kept_bind (kept_argumentList hcall) fun _ u _ => kept_self _ u
    · exact kept_self _ u

theorem kept_text : Kept excuse (text s c) (text s c₁) (text (s.withCase true) c₂) w := by
  rw [text_eq, text_eq, text_eq]
  apply kept_look
  apply kept_then
  intro ahead u _
  unfold pastQuestion
  split
  · exact kept_then _ fun ahead u _ => kept_textRest hcall _ ahead
  · exact kept_textRest hcall _ ahead

/-- The rule for an operand without what is attached to it. -/
theorem kept_primary (hs : s.parsing.ignoreCase = false)
    (hspelled : ∀ t name binding isCall, LooksUp s c w t name binding isCall →
      s.registry.FindsSpelled t name binding isCall ∨ excuse) :
    Kept excuse (primary s c) (primary s c₁) (primary (s.withCase true) c₂) w := by
  apply kept_look
  split
  · rename_i hkind
    exact kept_word hcall hs hkind hspelled
  · exact kept_text hcall
  · exact kept_self _ w
  · exact kept_self _ w
  · apply kept_then
    intro _ u _
    exact kept_bind (hcall conditional u) fun _ u _ => kept_self _ u
  · exact kept_self _ w

/-- What is attached to an operand looks up names in the type of what has been read of it. -/
theorem kept_attached (hs : s.parsing.ignoreCase = false) {a : Operand} {u : ScopedWalk}
    (ha : ReadTo s c w a u)
    (hspelled : ∀ t name binding isCall, LooksUp s c w t name binding isCall →
      s.registry.FindsSpelled t name binding isCall ∨ excuse) :
    Kept excuse (attached s c a) (attached s c₁ a) (attached (s.withCase true) c₂ a) u := by
  refine kept_repeatStep (J := ReadTo s c w) ?_ (fun _ _ _ _ ha hstep => ha.attached hstep) ha
  intro a u ha
  apply kept_look
  split
  · rename_i hdot
    apply kept_advance
    intro d hnext
    refine kept_bind (kept_memberAccess hcall hs a.type .ofInstance ?_) fun _ u _ => kept_self _ u
    exact fun name isCall hname => hspelled _ _ _ _ (.inOperand ha hdot hnext hname)
  · exact kept_self _ u
  · exact kept_bind (kept_elementAccess hcall _) fun _ u _ => kept_self _ u
  · exact kept_self _ u

/-! ## §6. Operators. -/

/-- A chain of operators looks up no name by itself. -/
theorem kept_chain (r : Rule) (isOperator : Cursor → Bool) :
    Kept excuse (chain s c r isOperator) (chain s c₁ r isOperator)
      (chain (s.withCase true) c₂ r isOperator) w := by
  apply kept_bind (hcall r w)
  intro first u _
  apply kept_loop
  intro left u
  apply kept_look
  split
  · apply kept_look
    apply kept_then
    intro _ u _
    exact kept_bind (hcall r u) fun _ u _ => kept_self _ u
  · exact kept_self _ u

theorem kept_containerList (operator : Token) (left : Operand) :
    Kept excuse (containerList s c operator left) (containerList s c₁ operator left)
      (containerList (s.withCase true) c₂ operator left) w := by
  refine kept_bind (kept_loop _ ?_) fun _ u _ => kept_self _ u
  intro _ u
  apply kept_then
  intro _ u _
  exact kept_bind (hcall unary u) fun _ u _ => kept_self _ u

omit hcall in
/-- The operator of a containment is one token, or two of which the second one is `in`. -/
theorem kept_pastOperator (isNegated : Bool) (position : Nat) {x z y : Typer Unit}
    (hx : ∀ u, Kept excuse x z y u) :
    Kept excuse (pastOperator isNegated position x) (pastOperator isNegated position z)
      (pastOperator isNegated position y) w := by
  unfold pastOperator
  split
  · apply kept_then
    intro _ u _
    apply kept_look
    split
    · exact kept_then _ fun _ u _ => hx u
    · intro a v hrun
      obtain ⟨_, _, hfails, -⟩ := eq_ok_of_bind hrun
      cases hfails
  · exact kept_then _ fun _ u _ => hx u

theorem kept_contained (operator : Token) (left : Operand) :
    Kept excuse (contained s c operator left) (contained s c₁ operator left)
      (contained (s.withCase true) c₂ operator left) w := by
  apply kept_look
  split
  · exact kept_containerList hcall _ left
  · exact kept_bind (hcall operand w) fun _ u _ => kept_self _ u
  · exact kept_self _ w

theorem kept_container (left : Operand) :
    Kept excuse (container s c left) (container s c₁ left) (container (s.withCase true) c₂ left) w := by
  rw [container_eq, container_eq, container_eq]
  apply kept_look
  exact kept_pastOperator _ _ fun _ => kept_contained hcall _ left

/-- A conditional looks up none. -/
theorem kept_conditional : Kept excuse (body s c .conditional) (body s c₁ .conditional)
    (body (s.withCase true) c₂ .conditional) w := by
  apply kept_nested
  apply kept_look
  apply kept_bind (hcall coalescing _)
  intro test u _
  apply kept_look
  split
  · apply kept_then
    intro _ u _
    apply kept_look
    apply kept_then
    intro _ u _
    apply kept_bind (hcall conditional u)
    intro x u _
    apply kept_then
    intro _ u _
    exact kept_bind (hcall conditional u) fun _ u _ => kept_self _ u
  · exact kept_self _ u

theorem kept_coalescing : Kept excuse (body s c .coalescing) (body s c₁ .coalescing)
    (body (s.withCase true) c₂ .coalescing) w := by
  apply kept_bind (hcall projection w)
  intro left u _
  apply kept_look
  split
  · apply kept_look
    apply kept_then
    intro _ u _
    exact kept_bind (hcall conditional u) fun _ u _ => kept_self _ u
  · exact kept_self _ u

/-- `in` looks up none; its list and its sequence are called for. -/
theorem kept_containment : Kept excuse (body s c .containment) (body s c₁ .containment)
    (body (s.withCase true) c₂ .containment) w := by
  apply kept_bind (hcall bitwise w)
  intro first u _
  apply kept_loop
  intro left u
  apply kept_look
  split
  · exact kept_bind (kept_container hcall left) fun _ u _ => kept_self _ u
  · exact kept_self _ u

/-- A prefix operator looks up none. -/
theorem kept_unary : Kept excuse (body s c .unary) (body s c₁ .unary) (body (s.withCase true) c₂ .unary) w := by
  apply kept_nested
  apply kept_look
  apply kept_look
  split
  · apply kept_look
    apply kept_then
    intro _ u _
    apply kept_look
    split
    · apply kept_then
      intro _ u _
      exact hcall operand u
    · exact kept_bind (hcall unary u) fun _ u _ => kept_self _ u
  · exact hcall operand _

/-- **A rule comes to the same if the rules that it calls do**, and every name that is looked up in an operand
finds members of its own spelling. -/
theorem kept_body (hs : s.parsing.ignoreCase = false) (r : Rule)
    (hspelled : ∀ t name binding isCall, r = .operand → LooksUp s c w t name binding isCall →
      s.registry.FindsSpelled t name binding isCall ∨ excuse) :
    Kept excuse (body s c r) (body s c₁ r) (body (s.withCase true) c₂ r) w := by
  cases r with
  | conditional => exact kept_conditional hcall
  | coalescing => exact kept_coalescing hcall
  | projection => exact kept_bind (hcall disjunction w) fun _ u _ => kept_self _ u
  | disjunction => exact kept_chain hcall _ _
  | conjunction => exact kept_chain hcall _ _
  | containment => exact kept_containment hcall
  | bitwise => exact kept_chain hcall _ _
  | comparison => exact kept_chain hcall _ _
  | shift => exact kept_chain hcall _ _
  | sum => exact kept_chain hcall _ _
  | product => exact kept_chain hcall _ _
  | unary => exact kept_unary hcall
  -- Only operands look names up.
  | operand =>
    have hspelled := fun t name binding isCall => hspelled t name binding isCall rfl
    apply kept_bind (kept_primary hcall hs hspelled)
    intro first u hfirst
    exact kept_attached hcall hs (.primary hfirst) hspelled

end

/-- **Every rule comes to the same without regard to case**, with any budget, unless it meets a name that
finds a member of another spelling. -/
theorem run_ignoreCase (hs : s.parsing.ignoreCase = false) (budget : Nat) (r : Rule) (w : ScopedWalk)
    {a : Operand} {u : ScopedWalk} (h : (run s budget r).run w = .ok a u) :
    (run (s.withCase true) budget r).run w = .ok a u ∨ MeetsOther s budget r w := by
  induction budget generalizing r w a u with
  | zero => cases h
  | succ budget ih =>
    -- The calls that meet such a name are blocked.
    have hcall : KeptCalls (MeetsOther s (budget + 1) r w) (run s budget)
        (blocked (MeetsOther s budget) (run s budget)) (run (s.withCase true) budget) := by
      intro q v b t hrun
      by_cases hmeets : MeetsOther s budget q v
      · exact .inr (.inl ⟨_, _, if_pos hmeets⟩)
      · left
        refine ⟨Eq.trans (if_neg hmeets) hrun, ?_⟩
        rcases ih q v hrun with hsame | hmeets'
        · exact hsame
        · exact absurd hmeets' hmeets
    -- A name that is not spelled exactly is itself a meeting, as it is looked up here.
    have hspelled : ∀ t name binding isCall, r = .operand → LooksUp s (run s budget) w t name binding isCall →
        s.registry.FindsSpelled t name binding isCall ∨ MeetsOther s (budget + 1) r w := by
      intro t name binding isCall hr hlooks
      by_cases hfinds : s.registry.FindsSpelled t name binding isCall
      · exact .inl hfinds
      · exact .inr (.inl ⟨hr, t, name, binding, isCall, hlooks, hfinds⟩)
    -- Nothing was met, or a call was blocked by what it would meet, or this rule meets it.
    rcases kept_body hcall hs r hspelled a u h with ⟨-, hsame⟩ | ⟨failure, t, hblocked⟩ | hmeets
    · exact .inl hsame
    · exact .inr (.inr (hingesOn_of_blocked h hblocked))
    · exact .inr hmeets

end Rule

/-! ## §7. Expressions. -/

/-- **An expression is of the same type without regard to case**, unless its type hinges on a name that
is looked up in a type where, without regard to case, it finds a member of another spelling. -/
theorem compile_ignoreCase (s : Setting) (text : String) (t : TypeDef)
    (h : (s.withCase false).compile text = .ok t) :
    (s.withCase true).compile text = .ok t ∨ ∃ c, Cursor.open? text.toList = .ok c ∧
      Rule.MeetsOther (s.withCase false) Rule.budget .conditional ⟨c, 0, []⟩ := by
  unfold Setting.compile Setting.typeOf at h ⊢
  cases hopen : Cursor.open? text.toList with
  | error fault =>
    rw [hopen] at h
    cases h
  | ok c =>
    rw [hopen] at h
    dsimp only at h ⊢
    cases hrun : (Rule.run (s.withCase false) Rule.budget .conditional).run ⟨c, 0, []⟩ with
    | error failure w =>
      rw [hrun] at h
      cases h
    | ok a w =>
      rw [hrun] at h
      -- The outcome is the same one, unless the walk meets such a name.
      rcases Rule.run_ignoreCase rfl _ _ _ hrun with hsame | hmeets
      · left
        have hsame : (Rule.run (s.withCase true) Rule.budget .conditional).run ⟨c, 0, []⟩ = .ok a w :=
          hsame
        rw [hsame]
        exact h
      · exact .inr ⟨c, rfl, hmeets⟩

/-- The member of a text, with regard to case and without. -/
theorem compile_ignoreCase_of_length :
    let s : Setting := ⟨.empty, {}, (Operand.predefined Known.string).type⟩
    (s.withCase false).compile "it.Length" = .ok (Operand.predefined Known.int32).type ∧
      ((s.withCase true).compile "it.Length" = .ok (Operand.predefined Known.int32).type ∨
        ∃ c, Cursor.open? "it.Length".toList = .ok c ∧
          Rule.MeetsOther (s.withCase false) Rule.budget .conditional ⟨c, 0, []⟩) :=
  have h : ((⟨.empty, {}, (Operand.predefined Known.string).type⟩ : Setting).withCase false).compile "it.Length" =
      .ok (Operand.predefined Known.int32).type := rfl
  ⟨h, compile_ignoreCase _ _ _ h⟩

/-- A type with two members the names of which differ in case only. -/
def twoSpellings : TypeDef :=
  { name := "Item", space := "Shop"
    properties := [⟨"code", Known.int32, false⟩, ⟨"Code", Known.string, false⟩] }

/-- Of two such members the first one is found for both spellings if case is ignored. -/
theorem not_compile_ignoreCase :
    ¬ ∀ (s : Setting) (text : String) (t : TypeDef), (s.withCase false).compile text = .ok t →
      (s.withCase true).compile text = .ok t := by
  intro h
  let s : Setting := ⟨.performAll .empty [.register twoSpellings], {}, twoSpellings⟩
  have hspelled : (s.withCase false).compile "it.Code" = .ok (Operand.predefined Known.string).type := by
    decide +kernel
  have hother : (s.withCase true).compile "it.Code" = .ok (Operand.predefined Known.int32).type := by
    decide +kernel
  have htype := Except.ok.inj (hother.symm.trans (h _ _ _ hspelled))
  exact absurd htype (by decide)

end TypeAhead.Typing
