/-
  TypeAhead.Proofs.Typing.Branches — WHERE OPERANDS ARE PUT TOGETHER.

  Four rules return what several operands have in common: the conditional for its
  branches, `iif` and `np` for their arguments, and `new […] {…}` for its elements.
  Whatever text, scopes and budget such a rule is run with, if it succeeds then the
  operands that it read fit what it returns.  Arrays of a given element type are not
  compared with it at all.

      Unites         the four rules, with what each of them read
      common_type    operands fit what is returned for them
-/
import TypeAhead.Proofs.Types.History
import TypeAhead.Proofs.Typing.CommonType
import TypeAhead.Proofs.Walk.Contract
import TypeAhead.Typing.Compile

namespace TypeAhead.Typing.Rule

open Walker

variable {s : Setting} {call : Rule → Typer Operand} {w v : Walk (List Scope)} {c : Operand}

/-! ## §1. What is read. -/

/-- The walk stands on a keyword, and after it these operands are read as arguments. -/
def ReadsArguments (call : Rule → Typer Operand) (w : Walk (List Scope)) (operands : List Operand) : Prop :=
  ∃ u v, (advance : Typer Unit).run w = .ok () u ∧ (argumentList call).run u = .ok operands v

/-- After a test and a question mark, these two operands are read with a colon between them. -/
def ReadsBranches (call : Rule → Typer Operand) (w : Walk (List Scope)) (a b : Operand) : Prop :=
  ∃ test question first colon second v,
    (call .coalescing).run w = .ok test question ∧ question.cursor.current.kind = .question ∧
    (advance : Typer Unit).run question = .ok () first ∧ (call .conditional).run first = .ok a colon ∧
    (expect .colon .colonExpected : Typer Unit).run colon = .ok () second ∧
    (call .conditional).run second = .ok b v

/-- Between the brackets on which the walk stands these operands are read, as the elements of an array if
the brackets are those of one. -/
def ReadsElements (s : Setting) (call : Rule → Typer Operand) (w : Walk (List Scope)) (isArray : Bool)
    (operands : List Operand) : Prop :=
  ∃ bracket u members v, arrayMark.run w = .ok isArray bracket ∧
    (advance : Typer Unit).run bracket = .ok () u ∧
    (createdMembers s call isArray).run u = .ok members v ∧ operands = members.map Prod.snd

/-! ## §2. Branches and arguments. -/

/-- The branches of a conditional fit what it returns. -/
theorem conditional_fits (h : (body s call .conditional).run w = .ok c v) :
    (∃ u, (call .coalescing).run w.deeper = .ok c u ∧ u.cursor.current.kind ≠ .question) ∨
      ∃ a b, ReadsBranches call w.deeper a b ∧ s.registry.Fits a c.type ∧ s.registry.Fits b c.type := by
  obtain ⟨-, v', h, -⟩ := eq_ok_of_nested h
  have h := eq_ok_of_lookThen h
  obtain ⟨test, question, htest, h⟩ := eq_ok_of_bind h
  have h := eq_ok_of_lookThen h
  -- Without `?` the rule gives what it read first.
  split at h
  · rename_i hquestion
    -- The test is looked at, and then both branches are read and put together.
    right
    obtain ⟨_, u, hboolean, h⟩ := eq_ok_of_bind h
    have h := eq_ok_of_lookThen h
    obtain ⟨_, first, hadvance, h⟩ := eq_ok_of_bind h
    rw [(eq_ok_of_ofExcept hboolean).2] at hadvance
    obtain ⟨a, colon, ha, h⟩ := eq_ok_of_bind h
    obtain ⟨_, second, hcolon, h⟩ := eq_ok_of_bind h
    obtain ⟨b, u, hb, h⟩ := eq_ok_of_bind h
    obtain ⟨hunify, -⟩ := eq_ok_of_ofExcept h
    exact ⟨a, b, ⟨test, question, first, colon, second, _, htest, hquestion, hadvance, ha, hcolon, hb⟩,
      Registry.unify_fits hunify⟩
  · rename_i hquestion
    cases h
    exact .inl ⟨_, htest, hquestion⟩

/-- The second and the third argument of `iif` fit what it returns. -/
theorem choice_fits (h : (choice s call).run w = .ok c v) :
    ∃ test a b, ReadsArguments call w [test, a, b] ∧ s.registry.Fits a c.type ∧
      s.registry.Fits b c.type := by
  unfold choice at h
  have h := eq_ok_of_lookThen h
  obtain ⟨_, u, hadvance, h⟩ := eq_ok_of_bind h
  obtain ⟨operands, u', hread, h⟩ := eq_ok_of_bind h
  split at h
  · rename_i test a b
    obtain ⟨_, u, -, h⟩ := eq_ok_of_bind h
    obtain ⟨hunify, -⟩ := eq_ok_of_ofExcept h
    exact ⟨test, a, b, ⟨_, _, hadvance, hread⟩, Registry.unify_fits hunify⟩
  · cases h

/-- The argument of `np` is what it returns, or both its arguments fit that. -/
theorem nullPropagation_fits (h : (nullPropagation s call).run w = .ok c v) :
    (∃ a, ReadsArguments call w [a] ∧ c = .value a.type) ∨
      ∃ a b, ReadsArguments call w [a, b] ∧ s.registry.Fits a c.type ∧ s.registry.Fits b c.type := by
  unfold nullPropagation at h
  have h := eq_ok_of_lookThen h
  obtain ⟨_, u, hadvance, h⟩ := eq_ok_of_bind h
  obtain ⟨operands, u', hread, h⟩ := eq_ok_of_bind h
  split at h
  · rename_i a
    cases h
    exact .inl ⟨a, ⟨_, _, hadvance, hread⟩, rfl⟩
  · rename_i a b
    obtain ⟨hunify, -⟩ := eq_ok_of_ofExcept h
    exact .inr ⟨a, b, ⟨_, _, hadvance, hread⟩, Registry.unify_fits hunify⟩
  · cases h

/-! ## §3. Elements. -/

/-- **What `new` makes of what it reads.**  An array of a given type is that, whatever its elements are;
otherwise its elements fit the type that they have in common, where conversions compose. -/
theorem createdBody_fits {target : Option TypeDef} {position : Nat}
    (h : (createdBody s call target position).run w = .ok c v) :
    ∃ isArray operands, ReadsElements s call w isArray operands ∧
      (isArray = true → ∃ t, c = SequenceOperator.sequence t ∧ (∀ given, target = some given → t = given) ∧
        (target = none → s.registry.Composes operands → ∀ a ∈ operands, s.registry.Fits a t)) := by
  unfold createdBody at h
  obtain ⟨isArray, bracket, hmark, h⟩ := eq_ok_of_bind h
  obtain ⟨_, u, hadvance, h⟩ := eq_ok_of_bind h
  obtain ⟨members, u', hmembers, h⟩ := eq_ok_of_bind h
  -- Whatever stands between the brackets is read before the type is looked at.
  refine ⟨isArray, members.map Prod.snd, ⟨bracket, u, members, u', hmark, hadvance, hmembers, rfl⟩, ?_⟩
  rintro rfl
  rw [if_pos rfl] at h
  cases target with
  | some given =>
    cases h
    exact ⟨given, rfl, fun _ heq => Option.some.inj heq, nofun⟩
  | none =>
    -- Without a given type the elements are put together, if there are any.
    obtain ⟨common, u, hcommon, h⟩ := eq_ok_of_bind h
    have hunify := (eq_ok_of_ofExcept hcommon).1
    cases common with
    | some a =>
      cases h
      exact ⟨a.type, rfl, nofun, fun _ hcompose => Registry.unifyAll_fits hcompose hunify⟩
    | none =>
      cases h
      refine ⟨_, rfl, nofun, ?_⟩
      rw [Registry.eq_nil_of_unifyAll hunify]
      exact fun _ _ => nofun

/-! ## §4. All four rules. -/

/-- Wherever rules that call others in this way put operands together, these fit what is returned. -/
structure Unites (s : Setting) (call : Rule → Typer Operand) : Prop where
  /-- `a ? b : c`, unless there is only the first operand. -/
  conditional : ∀ w c v, (body s call .conditional).run w = .ok c v →
    (∃ u, (call .coalescing).run w.deeper = .ok c u ∧ u.cursor.current.kind ≠ .question) ∨
      ∃ a b, ReadsBranches call w.deeper a b ∧ s.registry.Fits a c.type ∧ s.registry.Fits b c.type
  /-- `iif(test, a, b)` -/
  choice : ∀ w c v, (choice s call).run w = .ok c v →
    ∃ test a b, ReadsArguments call w [test, a, b] ∧ s.registry.Fits a c.type ∧
      s.registry.Fits b c.type
  /-- `np(a, b)`, and `np(a)`, which is what its argument is. -/
  nullPropagation : ∀ w c v, (nullPropagation s call).run w = .ok c v →
    (∃ a, ReadsArguments call w [a] ∧ c = .value a.type) ∨
      ∃ a b, ReadsArguments call w [a, b] ∧ s.registry.Fits a c.type ∧ s.registry.Fits b c.type
  /-- `new […] {…}`, and `new T[] {…}`, of which only the type of the result is stated. -/
  created : ∀ target position w c v, (createdBody s call target position).run w = .ok c v →
    ∃ isArray operands, ReadsElements s call w isArray operands ∧
      (isArray = true → ∃ t, c = SequenceOperator.sequence t ∧ (∀ given, target = some given → t = given) ∧
        (target = none → s.registry.Composes operands → ∀ a ∈ operands, s.registry.Fits a t))

theorem unites (s : Setting) (call : Rule → Typer Operand) : Unites s call where
  conditional _ _ _ := conditional_fits
  choice _ _ _ := choice_fits
  nullPropagation _ _ _ := nullPropagation_fits
  created _ _ _ _ _ := createdBody_fits

/-- **What operands have in common is common to them.**  Of two operands that are put together both convert
to the type that comes of it, but for null among values; so do the branches and arguments that the rules of
a grammar read, with every budget.  The elements of an array do where conversions compose, and only there
in all arrays; and conversions compose between any two operands, and among all operands of a registry in
which no base of an interface is left out, no type is declared over a number and hierarchies are of moderate
size. -/
theorem common_type (s : Setting) :
    (∀ a b position c, s.registry.unify a b position = .ok c →
      s.registry.Fits a c.type ∧ s.registry.Fits b c.type) ∧
    (∀ budget, Unites s (run s budget)) ∧
    (∀ operands, s.registry.Composes operands ↔
      ∀ elements : List Operand, (∀ a ∈ elements, a ∈ operands) → ∀ position c,
        s.registry.unifyAll position none elements = .ok (some c) →
          ∀ a ∈ elements, s.registry.Fits a c.type) ∧
    (∀ a b, s.registry.Composes [a, b]) ∧
    (s.registry.Built → (∀ t, s.registry.Knows t → s.registry.ReachesFew t ∧ s.registry.NamesFew t) →
      (∀ t, s.registry.Knows t → s.registry.Covers t) → s.registry.NumbersApart →
        ∀ operands : List Operand, (∀ a ∈ operands, s.registry.Knows a.type) →
          s.registry.Composes operands) := by
  -- Each part is a lemma of its own.
  refine ⟨?_, ?_, ?_, ?_, ?_⟩
  · intro a b position c h
    exact Registry.unify_fits h
  · intro budget
    exact unites s (run s budget)
  · intro operands
    exact Registry.composes_iff
  · intro a b
    exact Registry.composes_pair a b
  · intro hr hfew hcovers hnumbers operands hknows
    exact Registry.composes_of_covers hr hfew hcovers hnumbers hknows

/-- Animals have nothing of their own. -/
def animal : TypeDef := { name := "Animal", space := "Zoo" }

/-- Dogs are animals, and so are their mothers, as far as anyone knows. -/
def dog : TypeDef :=
  { name := "Dog", space := "Zoo", base := some "Zoo.Animal", properties := [⟨"Mother", "Zoo.Animal", false⟩] }

/-- Cats are animals too. -/
def cat : TypeDef := { name := "Cat", space := "Zoo", base := some "Zoo.Animal" }

/-- A zoo, where dogs and cats are animals. -/
def zoo : Registry := .performAll .empty [.register animal, .register dog, .register cat]

theorem built_zoo : zoo.Built := Registry.Built.empty.performAll

theorem custom_zoo : zoo.custom = [animal, dog, cat] := by decide +kernel

/-- All that types declare there is that dogs and cats are animals. -/
theorem declared_zoo {t : TypeDef} (ht : zoo.Knows t) :
    (∀ name ∈ t.base, name = "Zoo.Animal") ∧ t.interfaces = [] := by
  have hpredefined : ∀ t ∈ predefined, t.base = none ∧ t.interfaces = [] := by decide +kernel
  have hcustom : ∀ t ∈ zoo.custom, (∀ name ∈ t.base, name = "Zoo.Animal") ∧ t.interfaces = [] := by
    rw [custom_zoo]
    decide
  obtain ⟨element, rank, helement, rfl⟩ := ht
  cases rank with
  | succ rank => exact ⟨nofun, rfl⟩
  | zero =>
    rcases helement with helement | helement
    · obtain ⟨hbase, hinterfaces⟩ := hpredefined element helement
      refine ⟨?_, hinterfaces⟩
      show ∀ name ∈ element.base, _
      rw [hbase]
      exact nofun
    · exact hcustom element helement

theorem few_zoo {t : TypeDef} (ht : zoo.Knows t) : zoo.ReachesFew t ∧ zoo.NamesFew t := by
  have hnames : ∀ u, zoo.Knows u → ∀ name ∈ u.base.toList ++ u.interfaces, name ∈ ["Zoo.Animal"] := by
    intro u hu name hname
    rw [(declared_zoo hu).2, List.append_nil] at hname
    rw [(declared_zoo hu).1 name (by simpa using hname)]
    exact List.mem_cons_self
  exact Registry.few_of_names (by decide) hnames ht

theorem covers_zoo {t : TypeDef} (ht : zoo.Knows t) : zoo.Covers t :=
  Registry.covers_of_no_interfaces (fun _ hu => (declared_zoo hu).2) ht

theorem numbersApart_zoo : zoo.NumbersApart := by
  rintro t u ht (⟨hbase, hget⟩ | ⟨name, hname, -⟩)
  · rw [(declared_zoo ht).1 _ hbase] at hget
    have hanimal : zoo.get? "Zoo.Animal" = some animal := by decide +kernel
    cases hanimal.symm.trans hget
    decide
  · rw [(declared_zoo ht).2] at hname
    cases hname

/-- Null, as an operand. -/
def null : Operand := { Operand.predefined Known.object with form := .null }

/-- Dogs, null and animals are animals in common, for `iif` and as the elements of an array. -/
theorem common_type_of_zoo :
    let s : Setting := ⟨zoo, {}, dog⟩
    (∃ cursor c v, Cursor.open? "iif(true, it, it.Mother)".toList = .ok cursor ∧
      (choice s (run s 40)).run ⟨cursor, 0, []⟩ = .ok c v ∧ c.type = animal ∧
      ∃ test a b, ReadsArguments (run s 40) ⟨cursor, 0, []⟩ [test, a, b] ∧ zoo.Fits a c.type ∧
        zoo.Fits b c.type) ∧
    zoo.Built ∧ (∀ t, zoo.Knows t → zoo.ReachesFew t ∧ zoo.NamesFew t) ∧
    (∀ t, zoo.Knows t → zoo.Covers t) ∧ zoo.NumbersApart ∧
    ∀ a ∈ [.value dog, null, .value animal], zoo.Fits a animal := by
  intro s
  obtain ⟨-, hunites, hcomposes, -, hcovered⟩ := common_type s
  have hfew : ∀ t, zoo.Knows t → zoo.ReachesFew t ∧ zoo.NamesFew t := fun _ => few_zoo
  have hcovers : ∀ t, zoo.Knows t → zoo.Covers t := fun _ => covers_zoo
  refine ⟨?_, built_zoo, hfew, hcovers, numbersApart_zoo, ?_⟩
  -- The walk is evaluated, with a budget that is enough for these tokens.
  · obtain ⟨cursor, hopen, htype⟩ : ∃ cursor, Cursor.open? "iif(true, it, it.Mother)".toList = .ok cursor ∧
        (match (choice s (run s 40)).run ⟨cursor, 0, []⟩ with
          | .ok c _ => decide (c.type = animal)
          | .error _ _ => false) = true :=
      ⟨⟨24, 3, "(true, it, it.Mother)".toList, ⟨.identifier, "iif", 0⟩⟩, rfl, by decide +kernel⟩
    cases hrun : (choice s (run s 40)).run ⟨cursor, 0, []⟩ with
    | ok c v =>
      rw [hrun] at htype
      exact ⟨cursor, c, v, hopen, hrun, of_decide_eq_true htype, (hunites 40).choice _ c v hrun⟩
    | error failure v =>
      rw [hrun] at htype
      cases htype
  · -- The three operands are the elements of an array, and compose as all in the zoo do.
    have hknows : ∀ a ∈ [.value dog, null, .value animal], zoo.Knows a.type := by
      intro a ha
      simp only [List.mem_cons, List.not_mem_nil, or_false] at ha
      rcases ha with rfl | rfl | rfl
      · exact ⟨dog, 0, .inr (by simp [custom_zoo]), rfl⟩
      · exact Registry.knows_predefined (by decide)
      · exact ⟨animal, 0, .inr (by simp [custom_zoo]), rfl⟩
    have hunify : zoo.unifyAll 0 none [.value dog, null, .value animal] =
        .ok (some (.value animal)) := by rfl
    exact (hcomposes _).1 (hcovered built_zoo hfew hcovers numbersApart_zoo _ hknows) _ (fun _ ha => ha) 0 _
      hunify

/-- A type over a number. -/
def metres : TypeDef := { name := "Metres", base := some Known.int32 }

/-- **Null goes along with values**, an array of a given type has that type whatever is listed in it, and an early
element may not convert to what the later ones make of the common type. -/
theorem not_common_type :
    let s : Setting := ⟨.empty, {}, Predefined.objectType⟩
    let s' : Setting := ⟨.performAll .empty [.register metres], {}, metres⟩
    let int := (Operand.predefined Known.int32).type
    let long := (Operand.predefined Known.int64).type
    s.compile "iif(true, 1, null)" = .ok int ∧ s.registry.converts null int = false ∧
      s.compile "new int[] \x7b\"a\"\x7d" = .ok int.array ∧
      s.registry.converts (.predefined Known.string) int = false ∧
      s'.compile "new [] \x7bit, int(1), long(1)\x7d" = .ok long.array ∧
      s'.registry.converts (.value s'.context) long = false := by
  refine ⟨?_, ?_, ?_, ?_, ?_, ?_⟩ <;> decide +kernel

end TypeAhead.Typing.Rule
