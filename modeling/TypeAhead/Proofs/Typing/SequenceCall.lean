/-
  TypeAhead.Proofs.Typing.SequenceCall — AN OPERATOR BEHIND A SEQUENCE.

  A dot, the name of an operator and its argument in parentheses are attached to an
  operand as one thing more.  What stands between the parentheses is read as it is
  read by itself, a body with `it` bound to an element; so what the operator makes
  depends on nothing but the sequence and the argument.  Where the registry knows no
  type for the elements, the name is that of no method and of no operator either.

  The same goes for an index in brackets behind an array.

      Setting.Begins.attach      a text with one thing more attached to it
      attaches_call              the call of an operator
      refuses_call               the same, if the elements are of no known type
      attaches_index             an index
-/
import TypeAhead.Proofs.Typing.Elements
import TypeAhead.Proofs.Typing.Name
import TypeAhead.Proofs.Typing.Parenthesized

namespace TypeAhead.Typing

open Walker Text

variable {s : Setting} {text text' argument name : String} {a b : Operand} {t element : TypeDef}
  {o : SequenceOperator} {operands : List Operand}

/-! ## §1. What a text attaches. -/

/-- Behind the operand, the text is one thing more that is attached to it. -/
def Setting.Attaches (s : Setting) (a : Operand) (text : String) (b : Operand) : Prop :=
  ∀ (more : List Char) (size start : Nat) (g : Cursor),
    Cursor.read size none (start + text.utf8ByteSize) more = .ok g →
    ∃ f, Cursor.read size none start (text.toList ++ more) = .ok f ∧ Rule.Attaches s [] f a b g

/-- Behind the operand, the text is nothing that can be attached to it. -/
def Setting.Refuses (s : Setting) (a : Operand) (text : String) : Prop :=
  ∀ size start : Nat, ∃ f, Cursor.read size none start text.toList = .ok f ∧
    ∀ k (v : ScopedWalk), v.cursor = f → v.held = [] → ∀ next u,
      (Rule.attachedStep s (Rule.run s k) a).run v ≠ .ok next u

/-- **A text with one thing more attached to it.** -/
theorem Setting.Begins.attach (h : s.Begins text a) (hattaches : s.Attaches a text' b) :
    s.Begins (text ++ text') b := by
  intro more size g hg
  rw [String.utf8ByteSize_append] at hg
  obtain ⟨f, hf, hattaches⟩ := hattaches more size _ g hg
  obtain ⟨d, hd, hsign, hbegins⟩ := h _ size f hf
  rw [String.toList_append, List.append_assoc]
  exact ⟨d, hd, hsign, hbegins.attach hattaches⟩

/-- A text with something behind it that cannot be attached has no type. -/
theorem Setting.Begins.not_compile (h : s.Begins text a) (hrefuses : s.Refuses a text') (t : TypeDef) :
    s.compile (text ++ text') ≠ .ok t := by
  intro hcompile
  obtain ⟨b, ⟨c, u, hopen, hrun, -⟩, -⟩ := compile_eq_ok_iff.1 hcompile
  obtain ⟨f, hf, hstep⟩ := hrefuses (text ++ text').utf8ByteSize text.utf8ByteSize
  obtain ⟨d, hd, hsign, hbegins⟩ := h _ _ f hf
  have hc : d = c := by
    rw [Cursor.open?, byteSize_toList, String.toList_append] at hopen
    cases hd.symm.trans hopen
    rfl
  subst hc
  exact (hbegins.fails hstep).outward (Rule.operand_inner .conditional) (fun _ => hsign) _ _ rfl rfl b u hrun

/-! ## §2. The name of an operator. -/

/-- The operator with its argument, as it is written behind a sequence. -/
def call (o : SequenceOperator) (argument : String) : String := "." ++ o.word ++ "(" ++ argument ++ ")"

/-- A dot, the name of an operator and an opening parenthesis, from the cursor `f` on to `e`. -/
structure Called (o : SequenceOperator) (f e : Cursor) : Prop where
  dot : f.current.kind = .dot
  word : ∃ c, f.next = .ok c ∧ c.current.kind = .identifier ∧ c.current.text = o.word ∧ c.next = .ok e
  opens : e.current.kind = .openParen

theorem readAsName_word (o : SequenceOperator) : ReadAsName o.word := by
  have hall : ∀ entry ∈ SequenceOperator.names, ReadAsName entry.1 := by
    unfold ReadAsName
    decide +kernel
  exact hall (o.word, o) o.word_mem_names

theorem plainName_word (o : SequenceOperator) : plainName o.word = o.word := by
  cases o <;> decide

/-- Where the call of an operator stands, its name and the parenthesis are read, and then its argument. -/
theorem called_of_read (o : SequenceOperator) (argument : String) (more : List Char) (size start : Nat) :
    ∃ f e, Cursor.read size none start ((call o argument).toList ++ more) = .ok f ∧ Called o f e ∧
      e.next = Cursor.read size (some .openParen) (start + 1 + o.word.utf8ByteSize + 1)
        (argument.toList ++ ')' :: more) := by
  have htext : (call o argument).toList ++ more =
      '.' :: (o.word.toList ++ '(' :: (argument.toList ++ ')' :: more)) := by
    simp [call, String.toList_append]
  rw [htext]
  have hends : EndsName ('(' :: (argument.toList ++ ')' :: more)) := endsName_cons rfl
  refine ⟨⟨size, start + 1, o.word.toList ++ '(' :: (argument.toList ++ ')' :: more), ⟨.dot, ".", start⟩⟩,
    ⟨size, start + 1 + o.word.utf8ByteSize + 1, argument.toList ++ ')' :: more,
      ⟨.openParen, "(", start + 1 + o.word.utf8ByteSize⟩⟩, rfl, ⟨rfl, ?_, rfl⟩, rfl⟩
  exact ⟨_, (readAsName_word o).read hends size (some .dot) (start + 1), rfl, rfl, rfl⟩

/-- **The name of an operator that is that of no method** is that of the operator if there are elements, and
else that of nothing. -/
theorem run_attachedStep_called (call : Rule → Typer Operand) {f e : Cursor} {v : ScopedWalk}
    (hcalled : Called o f e) (hv : v.cursor = f)
    (hmethods : s.registry.findMethods a.type o.word .ofInstance s.parsing.ignoreCase = []) :
    ∃ position, (Rule.attachedStep s call a).run v =
      ((match s.registry.elementType? a.type with
        | some element => Rule.sequenceCall s call o element o.word
        | none => Rule.methodCall s call a.type [] o.word position) >>=
        fun member => (pure (true, member) : Typer (Bool × Operand))).run (v.moved e) := by
  obtain ⟨hdot, ⟨c, hnext, hkind, htext, hnext'⟩, hopens⟩ := hcalled
  subst hv
  -- Behind the dot a name stands before a bracket, and no method has that name.
  have hmember : (Rule.memberAccess s call a.type .ofInstance).run (v.moved c) =
      (match s.registry.elementType? a.type with
        | some element => Rule.sequenceCall s call o element o.word
        | none => Rule.methodCall s call a.type [] o.word c.current.start).run (v.moved e) := by
    -- The name is there, so it is not missed.
    have hrequire : (require .identifier .identifierExpected : Typer Unit).run (v.moved c) =
        .ok () (v.moved c) := by
      rw [require, run_demand, if_pos (by simp [Cursor.isKind, hkind])]
    unfold Rule.memberAccess
    rw [run_bind_of_ok hrequire,
      run_bind_of_ok (show current.run (v.moved c) = .ok c.current (v.moved c) from rfl)]
    dsimp only
    rw [htext, plainName_word, run_bind_of_ok (run_advance (w := v.moved c) hnext'),
      run_bind_of_ok (show kind.run (v.moved e) = .ok e.current.kind (v.moved e) from rfl), if_pos hopens,
      hmethods]
    simp only [List.isEmpty_nil, decide_true, Bool.and_self, if_true, Rule.sequenceOperator?,
      SequenceOperator.ofName?_word]
    cases s.registry.elementType? a.type <;> rfl
  refine ⟨c.current.start, ?_⟩
  unfold Rule.attachedStep
  rw [run_bind_of_ok (show kind.run v = .ok v.cursor.current.kind v from rfl), hdot]
  dsimp only
  rw [run_bind_of_ok (run_advance hnext), run_bind, hmember, ← run_bind]

/-! ## §3. Integers. -/

/-- The text is an integer literal of 32 bits. -/
structure IsInt32 (n : String) : Prop where
  token : Scan.token none 0 n.toList = .ok (⟨.integerLiteral, n, 0⟩, [])
  type : Literal.integerType? n = some Known.int32

/-- An integer is read wherever it stands, if nothing after it goes on with it. -/
theorem IsInt32.read {n : String} (hn : IsInt32 n) {e : Char} (he : Scan.separates e = true) (size start : Nat)
    (previous : TokenKind) (hprevious : previous ≠ .dot) (more : List Char) :
    Cursor.read size (some previous) start (n.toList ++ e :: more) =
      .ok ⟨size, start + n.utf8ByteSize, e :: more, ⟨.integerLiteral, n, start⟩⟩ := by
  have htoken := Scan.token_shift start none 0 (n.toList ++ e :: more)
  rw [Scan.token_append he more hn.token nofun, Nat.zero_add] at htoken
  rw [Cursor.read_previous (some previous) none (by simpa using hprevious)]
  rw [Fragment.read_eq_of_token htoken]
  simp [Token.shift, Token.stop]

namespace Rule

variable {c g : Cursor} {held : List Scope} {n : String}

/-- An integer before a bracket is an operand. -/
theorem reads_int32 (hn : IsInt32 n) (hkind : c.current.kind = .integerLiteral) (htext : c.current.text = n)
    (hnext : c.next = .ok g) (hstops : conditional.Stops g) :
    Reads s held conditional c Registry.int32Literal g := by
  have hprimary : ∀ k (v : ScopedWalk), v.cursor = c → v.held = held →
      Comes (primary s (run s k)) v Registry.int32Literal g := by
    rintro k v rfl -
    apply comes_lookThen
    rw [hkind]
    apply comes_lookThen
    dsimp only
    rw [htext, hn.type]
    exact comes_bind (comes_advance hnext) (comes_pure Registry.int32Literal _)
  have hoperand := (begins_of_primary hprimary).reads (hstops operand (operand_inner _))
  exact hoperand.outward (operand_inner _) hstops fun _ => noSign_of_kind _ hkind (by decide)

/-- One argument by itself. -/
theorem comes_arguments_int32 (hn : IsInt32 n) (hkind : c.current.kind = .integerLiteral)
    (htext : c.current.text = n) (hnext : c.next = .ok g) (hstops : conditional.Stops g)
    (hcomma : g.current.kind ≠ .comma) (k : Nat) (v : ScopedWalk) (hv : v.cursor = c) (hheld : v.held = held) :
    Comes (arguments (run s k)) v [Registry.int32Literal] g := by
  have hargument : Comes (argument (run s k)) v Registry.int32Literal g := by
    have hout : (discardedOut : Typer Bool).run v = .ok false v := by
      unfold discardedOut
      rw [run_bind_of_ok (show (look _ : Typer Bool).run v = .ok _ v from rfl), if_neg]
      · rfl
      · simp [Cursor.isOneOf, hv, hkind]
    unfold Comes argument
    rw [run_bind_of_ok hout]
    exact reads_int32 hn hkind htext hnext hstops k v hv hheld
  apply comes_bind hargument
  refine .inr (run_repeatStep_of_stop ?_)
  rw [run_bind_of_ok (show kind.run (v.moved g) = .ok g.current.kind (v.moved g) from rfl), if_neg hcomma]
  rfl

end Rule

/-! ## §4. What stands between the parentheses. -/

/-- All of the text reads as the body of an operator, with `it` bound to an element. -/
def Setting.ReadsBody (s : Setting) (element : TypeDef) (text : String) (a : Operand) : Prop :=
  ∃ c u, Cursor.open? text.toList = .ok c ∧
    (Rule.sequenceBody (Rule.run s Rule.budget) element).run ⟨c, 0, []⟩ = .ok a u ∧
    u.cursor.current.isFinish = true

deriving instance DecidableEq for Operand

instance (s : Setting) (element : TypeDef) (text : String) (a : Operand) :
    Decidable (s.ReadsBody element text a) :=
  match hopen : Cursor.open? text.toList with
  | .error _ => isFalse fun ⟨_, _, hopen', _⟩ => nomatch hopen.symm.trans hopen'
  | .ok c =>
    match hrun : (Rule.sequenceBody (Rule.run s Rule.budget) element).run ⟨c, 0, []⟩ with
    | .error .. => isFalse fun ⟨d, _, hopen', hrun', _⟩ => by
      cases hopen.symm.trans hopen'
      cases hrun.symm.trans hrun'
    | .ok b u =>
      decidable_of_iff (b = a ∧ u.cursor.current.isFinish = true) <| by
        constructor
        · rintro ⟨rfl, hfinish⟩
          exact ⟨c, u, hopen, hrun, hfinish⟩
        · rintro ⟨d, v, hopen', hrun', hfinish⟩
          cases hopen.symm.trans hopen'
          cases hrun.symm.trans hrun'
          exact ⟨rfl, hfinish⟩

/-- **What an operator may have between its parentheses**: nothing, a body, or an integer. -/
inductive Setting.Argument (s : Setting) (element : TypeDef) (o : SequenceOperator) :
    String → List Operand → Prop where
  | nothing : Argument s element o "" []
  | body {p : String} {a : Operand} (ho : o.takesBody = true) (h : s.ReadsBody element p a) :
      Argument s element o p [a]
  | integer {n : String} (ho : o.takesBody = false) (hn : IsInt32 n) :
      Argument s element o n [Registry.int32Literal]

/-- The operator reads its argument from the cursor `c` up to the closing parenthesis at `g`. -/
inductive HoldsArgument (s : Setting) (element : TypeDef) (o : SequenceOperator) (g : Cursor) :
    Cursor → List Operand → Prop where
  | nothing : HoldsArgument s element o g g []
  | body {c : Cursor} {a : Operand} (ho : o.takesBody = true) (hkind : c.current.kind ≠ .closeParen)
      (h : ∀ k (v : ScopedWalk), v.cursor = c → v.held = [] →
        Comes (Rule.sequenceBody (Rule.run s k) element) v a g) : HoldsArgument s element o g c [a]
  | arguments {c : Cursor} {operands : List Operand} (ho : o.takesBody = false)
      (hkind : c.current.kind ≠ .closeParen) (h : ∀ k (v : ScopedWalk), v.cursor = c → v.held = [] →
        Comes (Rule.arguments (Rule.run s k)) v operands g) : HoldsArgument s element o g c operands

theorem portable_sequenceBody (s : Setting) (element : TypeDef) :
    Portable fun k => Rule.sequenceBody (Rule.run s k) element where
  copies _ _ _ _ _ h :=
    Rule.copies_sequenceBody (Rule.copiesCalls_run s fun h => Bool.noConfusion h) (by decide) element h.pair
  follows k := Rule.follows_sequenceBody (Rule.follows_run bracketCourse s k) element
  keeps k := (disciplined_run s k).sequenceBody element

/-- No expression starts with a closing parenthesis. -/
theorem Rule.failsAt_closeParen {c : Cursor} (hkind : c.current.kind = .closeParen) (held : List Scope) :
    FailsAt s held conditional c := by
  have hoperand : FailsAt s held operand c := by
    intro k v hv _ a u hrun
    cases k with
    | zero => cases hrun
    | succ k =>
      obtain ⟨b, t, hprimary, -⟩ := eq_ok_of_bind hrun
      unfold primary at hprimary
      rw [run_bind_of_ok (show kind.run v = .ok v.cursor.current.kind v from rfl), hv, hkind] at hprimary
      cases hprimary
  exact hoperand.outward (operand_inner _) fun _ => noSign_of_kind _ hkind (by decide)

/-- Nor does a body. -/
theorem not_closeParen_of_sequenceBody {k : Nat} {w u : ScopedWalk}
    (hrun : (Rule.sequenceBody (Rule.run s k) element).run w = .ok a u) :
    w.cursor.current.kind ≠ .closeParen := by
  intro hkind
  unfold Rule.sequenceBody at hrun
  rw [run_bind_of_ok (show scopes.run w = .ok w.held w from rfl)] at hrun
  dsimp only at hrun
  split at hrun
  · cases hrun
  · have hparameter : Rule.bodyParameter.run w = .ok none w := by
      unfold Rule.bodyParameter
      rw [run_bind_of_ok (show cursor.run w = .ok w.cursor w from rfl), if_neg (by simp [hkind])]
      rfl
    rw [run_bind_of_ok hparameter] at hrun
    simp only [inScope, between] at hrun
    split at hrun
    · rename_i hbody
      exact Rule.failsAt_closeParen hkind _ k ⟨w.cursor, w.depth, ⟨element, none⟩ :: w.held⟩ rfl rfl _ _ hbody
    · cases hrun

/-- **What is between the parentheses is read as it is by itself.** -/
theorem Setting.Argument.holds (h : s.Argument element o argument operands) (size start : Nat) (more : List Char) :
    ∃ c g, Cursor.read size (some .openParen) start (argument.toList ++ ')' :: more) = .ok c ∧
      HoldsArgument s element o g c operands ∧ g.current.kind = .closeParen ∧
      g.next = Cursor.read size none (start + argument.utf8ByteSize + 1) more := by
  -- What comes after the parenthesis does not depend on it.
  have hlast : ∀ start, (⟨size, start + 1, more, ⟨.closeParen, ")", start⟩⟩ : Cursor).next =
      Cursor.read size none (start + 1) more :=
    fun start => Cursor.read_previous (some .closeParen) none (by decide) size (start + 1) more
  -- Between the parentheses stands nothing, the body of an operator, or a number.
  cases h with
  | nothing => exact ⟨_, _, rfl, .nothing, rfl, hlast start⟩
  | body ho h =>
    obtain ⟨c, u, hopen, hrun, hfinish⟩ := h
    obtain ⟨c', g, hc', hkind, hcloses, hnext, hinside⟩ :=
      (portable_sequenceBody s element).inside hopen hrun hfinish size start more
    have hfirst : c'.current.kind ≠ .closeParen := hkind ▸ not_closeParen_of_sequenceBody hrun
    exact ⟨c', g, hc', .body ho hfirst hinside, hcloses, hnext⟩
  | integer ho hn =>
    refine ⟨_, ⟨size, start + argument.utf8ByteSize + 1, more, ⟨.closeParen, ")", start + argument.utf8ByteSize⟩⟩,
      hn.read (by decide) size start .openParen nofun more, .arguments ho nofun ?_, rfl, hlast _⟩
    intro k v hv hheld
    exact Rule.comes_arguments_int32 hn rfl rfl rfl (Rule.stops_closeParen _ rfl) (by simp) k v hv hheld

/-! ## §5. The call of an operator. -/

theorem comes_sequenceCall {c e f g : Cursor} (hopens : e.current.kind = .openParen) (hnext : e.next = .ok c)
    (hholds : HoldsArgument s element o g c operands) (hcloses : g.current.kind = .closeParen)
    (hnext' : g.next = .ok f)
    (hresult : ∀ position, o.result s.registry name element position operands = .ok b) (k : Nat)
    (v : ScopedWalk) (hv : v.cursor = e) (hheld : v.held = []) :
    Comes (Rule.sequenceCall s (Rule.run s k) o element name) v b f := by
  subst hv
  apply comes_lookThen
  apply comes_bind (comes_expect hopens hnext)
  apply comes_lookThen
  -- Whatever was read, the parenthesis is closed and the operator has its result.
  have hrest : Comes (do
      expect .closeParen .closeParenOrCommaExpected
      ofExcept (o.result s.registry name element v.cursor.current.start operands)) (v.moved g) b f := by
    apply comes_bind (comes_expect hcloses hnext')
    rw [hresult]
    exact comes_pure b _
  cases hholds with
  | nothing =>
    rw [if_pos hcloses]
    exact comes_bind (comes_pure [] _) hrest
  | body ho hkind h =>
    rw [if_neg hkind, if_pos ho]
    exact comes_bind (comes_bind (h k (v.moved c) rfl hheld) (comes_pure _ _)) hrest
  | arguments ho hkind h =>
    rw [if_neg hkind, if_neg (by simp [ho])]
    exact comes_bind (h k (v.moved c) rfl hheld) hrest

/-- **The call of an operator is attached to a sequence.** -/
theorem attaches_call (hmethods : s.registry.findMethods a.type o.word .ofInstance s.parsing.ignoreCase = [])
    (helement : s.registry.elementType? a.type = some element) (hargument : s.Argument element o argument operands)
    (hresult : ∀ position, o.result s.registry o.word element position operands = .ok b) :
    s.Attaches a (call o argument) b := by
  intro more size start g hg
  obtain ⟨f, e, hf, hcalled, hnext⟩ := called_of_read o argument more size start
  obtain ⟨c, g', hc, hholds, hcloses, hnext'⟩ := hargument.holds size (start + 1 + o.word.utf8ByteSize + 1) more
  -- The call ends where its text does.
  have hbehind : g'.next = .ok g := by
    have hsize : start + 1 + o.word.utf8ByteSize + 1 + argument.utf8ByteSize + 1 =
        start + (call o argument).utf8ByteSize := by
      simp only [call, String.utf8ByteSize_append, show ".".utf8ByteSize = 1 from rfl,
        show "(".utf8ByteSize = 1 from rfl, show ")".utf8ByteSize = 1 from rfl]
      omega
    rw [hnext', hsize]
    exact hg
  refine ⟨f, hf, fun k v hv hheld => ?_⟩
  obtain ⟨position, hstep⟩ := run_attachedStep_called (Rule.run s k) hcalled hv hmethods
  unfold Comes
  rw [hstep, helement]
  exact comes_bind (comes_sequenceCall hcalled.opens (hnext.trans hc) hholds hcloses hbehind hresult k
    (v.moved e) rfl hheld) (comes_pure _ _)

/-- **Where the elements are of no known type, there is no operator.** -/
theorem refuses_call (hmethods : s.registry.findMethods a.type o.word .ofInstance s.parsing.ignoreCase = [])
    (helement : s.registry.elementType? a.type = none) (argument : String) : s.Refuses a (call o argument) := by
  intro size start
  obtain ⟨f, e, hf, hcalled, -⟩ := called_of_read o argument [] size start
  rw [List.append_nil] at hf
  refine ⟨f, hf, fun k v hv _ next u hrun => ?_⟩
  obtain ⟨position, hstep⟩ := run_attachedStep_called (Rule.run s k) hcalled hv hmethods
  rw [hstep, helement] at hrun
  obtain ⟨member, w, hcall, -⟩ := eq_ok_of_bind hrun
  obtain ⟨read, t, -, hselect⟩ := eq_ok_of_bind hcall
  cases hselect

/-! ## §6. An index. -/

/-- An index in brackets. -/
def index (n : String) : String := "[" ++ n ++ "]"

/-- An integer between brackets, from the cursor `f` on to `g`. -/
structure Indexed (n : String) (f g : Cursor) : Prop where
  opens : f.current.kind = .openBracket
  integer : ∃ c, f.next = .ok c ∧ c.current.kind = .integerLiteral ∧ c.current.text = n ∧ c.next = .ok g
  closes : g.current.kind = .closeBracket

/-- Where an index stands, its brackets are read and the integer between them. -/
theorem indexed_of_read {n : String} (hn : IsInt32 n) (more : List Char) (size start : Nat) :
    ∃ f g, Cursor.read size none start ((index n).toList ++ more) = .ok f ∧ Indexed n f g ∧
      g.next = Cursor.read size none (start + (index n).utf8ByteSize) more := by
  have htext : (index n).toList ++ more = '[' :: (n.toList ++ ']' :: more) := by
    simp [index, String.toList_append]
  have hsize : start + (index n).utf8ByteSize = start + 1 + n.utf8ByteSize + 1 := by
    simp only [index, String.utf8ByteSize_append, show "[".utf8ByteSize = 1 from rfl,
      show "]".utf8ByteSize = 1 from rfl]
    omega
  rw [htext, hsize]
  refine ⟨⟨size, start + 1, n.toList ++ ']' :: more, ⟨.openBracket, "[", start⟩⟩,
    ⟨size, start + 1 + n.utf8ByteSize + 1, more, ⟨.closeBracket, "]", start + 1 + n.utf8ByteSize⟩⟩, rfl,
    ⟨rfl, ?_, rfl⟩, Cursor.read_previous (some .closeBracket) none (by decide) _ _ _⟩
  exact ⟨_, hn.read (by decide) size (start + 1) .openBracket nofun more, rfl, rfl, rfl⟩

/-- An index behind an array leads to what its name for the elements means. -/
theorem run_elementAccess {n : String} {e f g : Cursor} (hn : IsInt32 n) (hindexed : Indexed n f g)
    (hnext : g.next = .ok e) (element : TypeDef) (k : Nat) (v : ScopedWalk) (hv : v.cursor = f)
    (hheld : v.held = []) : ((Rule.elementAccess s (Rule.run s k) element.array).run v).TooDeep ∨
      (Rule.elementAccess s (Rule.run s k) element.array).run v =
        (Operand.value <$> Rule.mentioned s element.fullName f.current.start).run (v.moved e) := by
  obtain ⟨hopens, ⟨c, hfirst, hkind, htext, hlast⟩, hcloses⟩ := hindexed
  subst hv
  unfold Rule.elementAccess
  rw [run_bind_of_ok (show position.run v = .ok v.cursor.current.start v from rfl)]
  -- The bracket, the number in it and the closing bracket are read one after the other.
  rcases (comes_expect hopens hfirst).andThen _ with hdeep | hrun
  · exact .inl hdeep
  rw [hrun]
  have harguments := Rule.comes_arguments_int32 (s := s) hn hkind htext hlast (Rule.stops_closeBracket _ hcloses)
    (by simp [hcloses]) k (v.moved c) rfl hheld
  rcases harguments.andThen _ with hdeep | hrun
  · exact .inl hdeep
  rw [hrun]
  rcases (comes_expect (v := v.moved g) hcloses hnext).andThen _ with hdeep | hrun
  · exact .inl hdeep
  rw [hrun]
  dsimp only
  rw [Registry.selectOverload_array]
  exact .inr rfl

theorem run_attachedStep_indexed {call : Rule → Typer Operand} {v : ScopedWalk} {f : Cursor}
    (hopens : f.current.kind = .openBracket) (hv : v.cursor = f) (element : TypeDef) :
    (Rule.attachedStep s call (SequenceOperator.sequence element)).run v =
      (Rule.elementAccess s call element.array >>= fun b =>
        (pure (true, b) : Typer (Bool × Operand))).run v := by
  unfold Rule.attachedStep
  rw [run_bind_of_ok (show kind.run v = .ok v.cursor.current.kind v from rfl), hv, hopens]
  dsimp only [SequenceOperator.sequence, Operand.value]

/-- **An index is attached to an array**, if its elements are of a known type. -/
theorem attaches_index {n : String} (hn : IsInt32 n) (hget : s.registry.get? element.fullName = some t) :
    s.Attaches (SequenceOperator.sequence element) (index n) (.value t) := by
  intro more size start e he
  obtain ⟨f, g, hf, hindexed, hnext⟩ := indexed_of_read hn more size start
  refine ⟨f, hf, fun k v hv hheld => ?_⟩
  unfold Comes
  rw [run_attachedStep_indexed hindexed.opens hv]
  refine comes_bind ?_ (comes_pure _ _)
  rcases run_elementAccess hn hindexed (hnext.trans he) element k v hv hheld with hdeep | hrun
  · exact .inl hdeep
  · refine .inr (hrun.trans ?_)
    rw [Rule.mentioned, hget]
    rfl

/-- **Where the elements are of no known type, there is none of that index.** -/
theorem refuses_index {n : String} (hn : IsInt32 n) (hget : s.registry.get? element.fullName = none) :
    s.Refuses (SequenceOperator.sequence element) (index n) := by
  intro size start
  obtain ⟨f, g, hf, hindexed, hnext⟩ := indexed_of_read hn [] size start
  rw [List.append_nil] at hf
  refine ⟨f, hf, fun k v hv hheld next u hrun => ?_⟩
  rw [run_attachedStep_indexed hindexed.opens hv] at hrun
  obtain ⟨b, w, haccess, -⟩ := eq_ok_of_bind hrun
  rcases run_elementAccess hn hindexed hnext element k v hv hheld with ⟨position, x, hdeep⟩ | hmentioned
  · cases hdeep.symm.trans haccess
  · rw [Rule.mentioned, hget] at hmentioned
    cases hmentioned.symm.trans haccess

end TypeAhead.Typing
