/-
  TypeAhead.Proofs.Typing.SequenceChain — CHAINS OF OPERATORS.

  Operators that make a sequence of a sequence are put one behind the other.  Each
  makes an array, and the next one asks for the elements of that array, which the
  array knows by name only.  So a chain goes on as long as the full name of the
  elements means their type.  It does so for every type of the registry; but what
  `new (…)` makes is not registered, and a sequence of it has no elements to be
  filtered, picked or counted.

      Link                  the operators that make a sequence of a sequence
      Chain.begins          what a chain of them makes
      sequence_chain        chains, and what picks an element behind them
-/
import TypeAhead.Proofs.Typing.SequenceCall

namespace TypeAhead.Typing

variable {s : Setting} {S ops argument ending : String} {t element element' : TypeDef} {o : SequenceOperator}
  {a : Operand}

/-! ## §1. Links of a chain. -/

/-- **The operators that make a sequence of a sequence**, with their argument and with the type of the
elements of what they make. -/
inductive Link (s : Setting) (element : TypeDef) : SequenceOperator → String → TypeDef → Prop where
  /-- The elements for which the body holds. -/
  | filter {p : String} {a : Operand} (hp : s.ReadsBody element p a) (ha : a.isBoolean = true) :
      Link s element .filter p element
  /-- The elements in the order of what the body makes of them. -/
  | order {o : SequenceOperator} {key : String} {a : Operand} (ho : o ∈ [.orderBy, .orderByDescending])
      (hkey : s.ReadsBody element key a) : Link s element o key element
  /-- A part of the elements, by their number. -/
  | part {o : SequenceOperator} {n : String} (ho : o ∈ [.skip, .take]) (hn : IsInt32 n) :
      Link s element o n element
  /-- All of the elements, in another form. -/
  | whole {o : SequenceOperator} (ho : o ∈ [.distinct, .reverse, .toArray, .toList]) : Link s element o "" element
  /-- What the body makes of the elements. -/
  | select {b : String} {a : Operand} (hb : s.ReadsBody element b a) : Link s element .select b a.type

/-- An integer converts to one of 32 bits. -/
theorem requireConversion_int32 (r : Registry) (position : Nat) :
    SequenceOperator.requireConversion r Registry.int32Literal (Operand.predefined Known.int32).type position =
      .ok () := by
  rw [SequenceOperator.requireConversion, if_pos (Registry.converts_int32Literal r)]

/-- **A link makes a sequence** of its argument. -/
theorem Link.result (h : Link s element o argument element') : ∃ operands,
    s.Argument element o argument operands ∧ ∀ position,
      o.result s.registry o.word element position operands = .ok (SequenceOperator.sequence element') := by
  -- Each link has an argument that its operator accepts, whatever the position.
  cases h with
  | filter hp ha =>
    refine ⟨_, .body rfl hp, fun position => ?_⟩
    show (SequenceOperator.requireBoolean _ position).map _ = _
    rw [SequenceOperator.requireBoolean, if_pos ha]
    rfl
  | order ho hkey =>
    simp only [List.mem_cons, List.not_mem_nil, or_false] at ho
    rcases ho with rfl | rfl <;> exact ⟨_, .body rfl hkey, fun _ => rfl⟩
  | part ho hn =>
    simp only [List.mem_cons, List.not_mem_nil, or_false] at ho
    rcases ho with rfl | rfl
    all_goals
      refine ⟨_, .integer rfl hn, fun position => ?_⟩
      show (SequenceOperator.requireConversion s.registry Registry.int32Literal
        (Operand.predefined Known.int32).type position).map (fun _ => SequenceOperator.sequence element) = _
      rw [requireConversion_int32]
      rfl
  | whole ho =>
    simp only [List.mem_cons, List.not_mem_nil, or_false] at ho
    rcases ho with rfl | rfl | rfl | rfl <;> exact ⟨_, .nothing, fun _ => rfl⟩
  | select hb => exact ⟨_, .body rfl hb, fun _ => rfl⟩

/-- A link is attached to a sequence of which no method is called like it. -/
theorem Link.attaches (h : Link s element o argument element')
    (hmethods : s.registry.findMethods a.type o.word .ofInstance s.parsing.ignoreCase = [])
    (helement : s.registry.elementType? a.type = some element) :
    s.Attaches a (call o argument) (SequenceOperator.sequence element') := by
  obtain ⟨operands, hargument, hresult⟩ := h.result
  exact attaches_call hmethods helement hargument hresult

/-! ## §2. Chains. -/

/-- **Links in a row**, of which the first is that of the operator `o`.  Before each further link, the
registry finds the elements that have been made. -/
inductive Chain (s : Setting) (element : TypeDef) (o : SequenceOperator) : String → TypeDef → Prop where
  | one {argument : String} {element' : TypeDef} (h : Link s element o argument element') :
      Chain s element o (call o argument) element'
  | more {ops argument : String} {o' : SequenceOperator} {element' element'' : TypeDef}
      (h : Chain s element o ops element') (hfound : s.registry.get? element'.fullName = some element')
      (hlink : Link s element' o' argument element'') : Chain s element o (ops ++ call o' argument) element''

/-- **A chain makes a sequence.** -/
theorem Chain.begins (h : Chain s element o ops element') (hS : s.Begins S a)
    (hmethods : s.registry.findMethods a.type o.word .ofInstance s.parsing.ignoreCase = [])
    (helement : s.registry.elementType? a.type = some element) :
    s.Begins (S ++ ops) (SequenceOperator.sequence element') := by
  -- By induction on the links; the array that is made so far has no methods of an operator's name.
  induction h with
  | one hlink => exact hS.attach (hlink.attaches hmethods helement)
  | @more ops argument o' element' element'' _ hfound hlink ih =>
    rw [← String.append_assoc]
    apply ih.attach
    apply hlink.attaches
    · exact Registry.findMethods_array s.registry element' o' .ofInstance s.parsing.ignoreCase
    · exact (Registry.elementType?_array s.registry element').trans hfound

/-! ## §3. One element. -/

/-- **What picks an element of a sequence**: an operator, possibly with a body that is to hold of the element,
or an index. -/
inductive Ending (s : Setting) (element : TypeDef) : String → Prop where
  | pick {o : SequenceOperator} (ho : o ∈ [.first, .last, .single]) : Ending s element (call o "")
  | pickIf {o : SequenceOperator} {p : String} {a : Operand} (ho : o ∈ [.first, .last, .single])
      (hp : s.ReadsBody element p a) (ha : a.isBoolean = true) : Ending s element (call o p)
  | index {n : String} (hn : IsInt32 n) : Ending s element (index n)

/-- The element is one of those that the registry finds. -/
theorem Ending.attaches (h : Ending s element ending) (hfound : s.registry.get? element.fullName = some element) :
    s.Attaches (SequenceOperator.sequence element) ending (.value element) := by
  -- An operator that picks an element is called on the array itself.
  have hcall : ∀ (o : SequenceOperator) argument operands, s.Argument element o argument operands →
      (∀ position, o.result s.registry o.word element position operands = .ok (.value element)) →
      s.Attaches (SequenceOperator.sequence element) (call o argument) (.value element) := by
    intro o argument operands hargument hresult
    refine attaches_call ?_ ?_ hargument hresult
    · exact Registry.findMethods_array s.registry element o .ofInstance s.parsing.ignoreCase
    · exact (Registry.elementType?_array s.registry element).trans hfound
  cases h with
  | @pick o ho =>
    simp only [List.mem_cons, List.not_mem_nil, or_false] at ho
    rcases ho with rfl | rfl | rfl <;> exact hcall _ _ _ .nothing fun _ => rfl
  | @pickIf o p a ho hp ha =>
    have hmap : ∀ position, (SequenceOperator.requireBoolean a position).map (fun _ => Operand.value element) =
        .ok (.value element) := by
      intro position
      rw [SequenceOperator.requireBoolean, if_pos ha]
      rfl
    simp only [List.mem_cons, List.not_mem_nil, or_false] at ho
    rcases ho with rfl | rfl | rfl <;> exact hcall _ _ _ (.body rfl hp) hmap
  -- An index needs no call.
  | index hn => exact attaches_index hn hfound

/-- Of elements that the registry does not find, none is picked. -/
theorem Ending.refuses (h : Ending s element ending) (hlost : s.registry.get? element.fullName = none) :
    s.Refuses (SequenceOperator.sequence element) ending := by
  have hcall : ∀ (o : SequenceOperator) argument,
      s.Refuses (SequenceOperator.sequence element) (call o argument) := by
    intro o argument
    refine refuses_call ?_ ?_ argument
    · exact Registry.findMethods_array s.registry element o .ofInstance s.parsing.ignoreCase
    · exact (Registry.elementType?_array s.registry element).trans hlost
  cases h with
  | @pick o => exact hcall o ""
  | @pickIf o p => exact hcall o p
  | index hn => exact refuses_index hn hlost

/-! ## §4. Texts. -/

/-- A text to which nothing more is attached has the type of its operand. -/
theorem Setting.Begins.compile {text : String} (h : s.Begins text a) :
    s.compile text = .ok a.type ∨ s.TooDeep text :=
  h.reads.imp_left fun hreads => compile_eq_ok_iff.2 ⟨a, hreads, rfl⟩

/-- **Operators of sequences compose**, as long as the registry finds the elements.  Behind an expression
with elements, of which no method is called like the first operator, a chain has the type of an array of what
its last link makes.  If the full name of that type means it, then it is the type of the elements, and of what
is picked behind the chain; this is so for every type that the registry knows, that of the first elements among
them.  If the name means nothing, then no element can be picked. -/
theorem sequence_chain (s : Setting) (hr : s.registry.Built) (hS : s.compile S = .ok t)
    (helement : s.registry.elementType? t = some element)
    (hmethods : s.registry.findMethods t o.word .ofInstance s.parsing.ignoreCase = [])
    (hchain : Chain s element o ops element') :
    (s.compile ("(" ++ S ++ ")" ++ ops) = .ok element'.array ∨ s.TooDeep ("(" ++ S ++ ")" ++ ops)) ∧
    (s.registry.get? element'.fullName = some element' →
      s.registry.elementType? element'.array = some element' ∧ ∀ ending, Ending s element' ending →
        s.compile ("(" ++ S ++ ")" ++ ops ++ ending) = .ok element' ∨
          s.TooDeep ("(" ++ S ++ ")" ++ ops ++ ending)) ∧
    (s.registry.get? element'.fullName = none →
      s.registry.elementType? element'.array = none ∧ ∀ ending u, Ending s element' ending →
        s.compile ("(" ++ S ++ ")" ++ ops ++ ending) ≠ .ok u) ∧
    s.registry.Knows element ∧ ∀ u, s.registry.Knows u → s.registry.get? u.fullName = some u := by
  obtain ⟨a, hreads, rfl⟩ := compile_eq_ok_iff.1 hS
  -- The chain is one beginning of a text; an ending is attached to it or refused.
  have hbegins : s.Begins ("(" ++ S ++ ")" ++ ops) (SequenceOperator.sequence element') :=
    hchain.begins hreads.begins hmethods helement
  have harray := Registry.elementType?_array s.registry element'
  refine ⟨hbegins.compile, fun hfound => ⟨harray.trans hfound, fun ending hending => ?_⟩,
    fun hlost => ⟨harray.trans hlost, fun ending u hending => ?_⟩, ?_, fun u hu => hr.get?_fullName hu⟩
  · exact (hbegins.attach (hending.attaches hfound)).compile
  · exact hbegins.not_compile (hending.refuses hlost) u
  · obtain ⟨name, -, hget⟩ := Option.bind_eq_some_iff.1 helement
    exact Registry.knows_of_get? hget

/-- A setting in which `it` is of no use. -/
def ofObject : Setting := ⟨.empty, {}, Predefined.objectType⟩

/-- The type that `new (it as a)` makes of an integer. -/
def ofInteger : TypeDef := Rule.anonymous [("a", .value (Operand.predefined Known.int32).type)]

/-- Two links on an array of integers, with an element picked behind them; and a link to a type that
the registry does not find, with none. -/
theorem sequence_chain_of_integers :
    let int32 := (Operand.predefined Known.int32).type
    ofObject.compile "new[] \x7b1\x7d" = .ok int32.array ∧
      Chain ofObject int32 .filter (call .filter "it > 0" ++ call .select "x => x + 0.5")
        (Operand.predefined Known.double).type ∧
      (ofObject.compile "(new[] \x7b1\x7d).Where(it > 0).Select(x => x + 0.5).First()" =
          .ok (Operand.predefined Known.double).type ∨
        ofObject.TooDeep "(new[] \x7b1\x7d).Where(it > 0).Select(x => x + 0.5).First()") ∧
      Chain ofObject int32 .select (call .select "new (it as a)") ofInteger ∧
      ∀ u, ofObject.compile "(new[] \x7b1\x7d).Select(new (it as a)).First()" ≠ .ok u := by
  intro int32
  have hS : ofObject.compile "new[] \x7b1\x7d" = .ok int32.array := rfl
  have helement : ofObject.registry.elementType? int32.array = some int32 := by decide +kernel
  have hmethods : ∀ o : SequenceOperator, ofObject.registry.findMethods int32.array o.word .ofInstance
      ofObject.parsing.ignoreCase = [] := fun o => Registry.findMethods_array _ int32 o _ _
  have hchain : Chain ofObject int32 .filter (call .filter "it > 0" ++ call .select "x => x + 0.5")
      (Operand.predefined Known.double).type := by
    have hpositive : ofObject.ReadsBody int32 "it > 0" (.predefined Known.boolean) := by decide +kernel
    have hhalf : ofObject.ReadsBody int32 "x => x + 0.5" (.predefined Known.double) := by decide +kernel
    exact .more (.one (.filter hpositive rfl)) (by decide +kernel) (.select hhalf)
  -- An anonymous element type cannot be found by its name.
  have hlost : Chain ofObject int32 .select (call .select "new (it as a)") ofInteger := by
    have hnew : ofObject.ReadsBody int32 "new (it as a)" (.value ofInteger) := by decide +kernel
    exact .one (.select hnew)
  obtain ⟨-, hfound, -⟩ := sequence_chain ofObject .empty hS helement (hmethods _) hchain
  obtain ⟨-, -, hnone, -⟩ := sequence_chain ofObject .empty hS helement (hmethods _) hlost
  refine ⟨hS, hchain, ?_, hlost, fun u => ?_⟩
  · exact (hfound (by decide +kernel)).2 (call .first "") (.pick (by decide))
  · exact (hnone (by decide +kernel)).2 (call .first "") u (.pick (by decide))

end TypeAhead.Typing
