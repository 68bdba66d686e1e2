/-
  TypeAhead.Proofs.Typing.OperandOrder — WHICH OPERAND STANDS ON THE LEFT.

  The table of numbers does not tell left from right, and neither does the question
  whether two operands can be equal.  An integer literal takes the numeric type of
  the other side.  Where both sides are literals, only the left one does, so that a
  long literal before a short one is calculated with as if it were short; and where
  two branches are put together, the left one is asked first, and a literal is what
  the other one converts to before it is what converts.  Apart from integer literals
  the order makes no difference.

      typeOf?_operate_comm     operators of arithmetic
      equatable_comm           equality
      typeOf?_unify_comm       branches
      operand_order            when the order makes no difference
-/
import TypeAhead.Proofs.Typing.CommonType
import TypeAhead.Typing.Compile

namespace TypeAhead

/-! ## §1. The table of numbers. -/

namespace Known

theorem promote_comm (left right : String) : promote left right = promote right left := by
  simp only [promote, Bool.or_comm (left == _), Bool.or_comm (isSigned left), Bool.or_comm (!isArithmetic left)]

/-- A number is calculated with in some type. -/
theorem promoteUnary_ne_none : ∀ name ∈ Registry.numbers, promoteUnary name ≠ none := by decide

/-- Texts and times are no numbers. -/
theorem plain_arithmetic : ∀ x ∈ Registry.numbers, ∀ y ∈ Registry.numbers, ∀ o ∈ [Operator.add, .multiply],
    concatenates o x y = false ∧ temporal o x y = none := by decide +kernel

theorem ne_boolean_of_number : ∀ name ∈ Registry.numbers, (name == boolean) = false := by decide

/-- The types of integer literals. -/
def ofLiterals : List String := [int32, uint32, int64, uint64]

/-- They are calculated with as they are. -/
theorem promote_ofLiterals : ∀ name ∈ ofLiterals, promote name name = some name ∧ isIntegral name = true := by
  decide

end Known

/-- An integer literal has one of four types. -/
theorem Literal.integerType?_mem {text name : String} (h : integerType? text = some name) :
    name ∈ Known.ofLiterals := by
  have htypes : ∀ (negative : Bool) (suffix : List Char), ∀ entry ∈ Integer.types negative suffix,
      entry.2 ∈ Known.ofLiterals := by
    intro negative suffix
    cases negative <;> simp only [Integer.types] <;> split <;> simp [Known.ofLiterals]
  obtain ⟨literal, -, h⟩ := Option.bind_eq_some_iff.1 h
  obtain ⟨entry, hentry, hname⟩ := Option.bind_eq_some_iff.1 h
  cases hname
  exact htypes _ _ _ (List.mem_of_find?_eq_some hentry)

namespace Registry

variable {r : Registry} {a b : Operand} {t u : TypeDef} {position : Nat}

/-! ## §2. Numbers as operands. -/

/-- A number or a character: a value of a type of the registry, or an integer literal. -/
structure IsNumber (r : Registry) (a : Operand) : Prop where
  knows : r.Knows a.type
  arithmetic : Known.isArithmetic a.typeName = true
  form : a.form = .plain ∨ a.form = .integer ∧ ∃ text, Literal.integerType? text = some a.typeName

/-- The type of what comes of two operands, if something does. -/
def typeOf? (result : Except Fault Operand) : Option TypeDef := result.toOption.map Operand.type

theorem IsNumber.mem (ha : r.IsNumber a) : a.typeName ∈ numbers := isArithmetic_iff.1 ha.arithmetic

theorem IsNumber.isNull (ha : r.IsNumber a) : a.isNull = false := by
  unfold Operand.isNull
  rcases ha.form with h | ⟨h, -⟩ <;> rw [h] <;> rfl

theorem IsNumber.mem_ofLiterals (ha : r.IsNumber a) (h : a.isInteger = true) :
    a.typeName ∈ Known.ofLiterals := by
  rcases ha.form with hform | ⟨-, text, htext⟩
  · rw [Operand.isInteger, hform] at h
    cases h
  · exact Literal.integerType?_mem htext

/-- The predefined types of numbers are the only ones. -/
theorem predefined_of_number (hr : r.Built) (ht : r.Knows t) (h : Known.isArithmetic t.fullName = true) :
    t = (Operand.predefined t.fullName).type ∧ t.kind = .value := by
  have hall : ∀ name ∈ numbers, ∃ t ∈ predefined, t.fullName = name ∧
      t = (Operand.predefined name).type ∧ t.kind = .value := by decide +kernel
  obtain ⟨number, hmem, hname, hnumber⟩ := hall _ (isArithmetic_iff.1 h)
  have hknown := hr.get?_fullName ht
  rw [← hname, get?_predefined hmem] at hknown
  cases hknown
  exact hnumber

/-- So a number has the type that its name says. -/
theorem IsNumber.type_inj (hr : r.Built) (ha : r.IsNumber a) (hb : r.IsNumber b) :
    a.type = b.type ↔ a.typeName = b.typeName := by
  constructor
  · exact congrArg TypeDef.fullName
  · intro h
    rw [(predefined_of_number hr ha.knows ha.arithmetic).1, (predefined_of_number hr hb.knows hb.arithmetic).1]
    exact congrArg (fun name => (Operand.predefined name).type) h

theorem IsNumber.typeName_predefined {name : String} (h : name ∈ numbers) :
    (Operand.predefined name).typeName = name := by
  have hall : ∀ name ∈ numbers, (Operand.predefined name).typeName = name := by decide +kernel
  exact hall name h

/-! ## §3. Operators. -/

/-- Of two numbers, at most one takes the type of the other. -/
theorem adapted_number (ha : r.IsNumber a) (hb : r.IsNumber b) : a.adapted b =
    if a.isInteger then (b.typeName, b.typeName)
    else if b.isInteger then (a.typeName, a.typeName) else (a.typeName, b.typeName) := by
  unfold Operand.adapted
  simp only [ha.arithmetic, hb.arithmetic, Bool.and_true]

/-- The names that an operator is asked about are those of the two operands. -/
theorem adapted_mem (ha : r.IsNumber a) (hb : r.IsNumber b) :
    (a.adapted b).1 ∈ numbers ∧ (a.adapted b).2 ∈ numbers := by
  rw [adapted_number ha hb]
  repeat' split
  · exact ⟨hb.mem, hb.mem⟩
  · exact ⟨ha.mem, ha.mem⟩
  · exact ⟨ha.mem, hb.mem⟩

/-- **Only between two literals does it matter which one is on the left**: the names are the same otherwise,
in the other order. -/
theorem adapted_swap (ha : r.IsNumber a) (hb : r.IsNumber b) (h : ¬ (a.isInteger = true ∧ b.isInteger = true)) :
    b.adapted a = (a.adapted b).swap := by
  rw [adapted_number ha hb, adapted_number hb ha]
  cases hl : a.isInteger <;> cases hs : b.isInteger <;> simp_all

/-- What an operator of arithmetic makes of two numbers: with the bits of integers, or with numbers. -/
theorem operation?_number (ha : r.IsNumber a) (hb : r.IsNumber b) (hr : r.Built) {o : Operator}
    (ho : o ∈ [Operator.add, .multiply, .bitwiseAnd, .bitwiseOr]) : r.operation? o a b =
      if o ∈ [Operator.add, .multiply] ∨
          (Known.isIntegral (a.adapted b).1 = true ∧ Known.isIntegral (a.adapted b).2 = true) then
        (Known.promote (a.adapted b).1 (a.adapted b).2).map .predefined
      else none := by
  obtain ⟨hl, hs⟩ := adapted_mem ha hb
  -- Numbers are neither joined as texts nor added as times, so the promoted type is left.
  have harithmetic : ∀ o ∈ [Operator.add, .multiply], arithmetic? o a b =
      (Known.promote (a.adapted b).1 (a.adapted b).2).map .predefined := by
    intro o ho
    obtain ⟨hconcatenates, htemporal⟩ := Known.plain_arithmetic _ hl _ hs o ho
    simp only [arithmetic?, hconcatenates, htemporal, Bool.false_eq_true, if_false]
  -- Bitwise operators ask for integers, as numbers are neither flags nor truth values.
  have hbitwise : bitwise? a b =
      if Known.isIntegral (a.adapted b).1 = true ∧ Known.isIntegral (a.adapted b).2 = true then
        (Known.promote (a.adapted b).1 (a.adapted b).2).map .predefined
      else none := by
    have hkind := (predefined_of_number hr ha.knows ha.arithmetic).2
    simp only [bitwise?, Known.ne_boolean_of_number _ hl, hkind, Bool.false_and, Bool.false_eq_true, if_false,
      Bool.and_eq_true, reduceCtorEq, decide_false]
  simp only [List.mem_cons, List.not_mem_nil, or_false] at ho
  rcases ho with rfl | rfl | rfl | rfl
  · exact (harithmetic .add (by decide)).trans (by simp)
  · exact (harithmetic .multiply (by decide)).trans (by simp)
  · exact hbitwise.trans (by simp)
  · exact hbitwise.trans (by simp)

theorem typeOf?_operate (o : Operator) (token : Token) (a b : Operand) :
    typeOf? (r.operate o token a b) = (r.operation? o a b).map Operand.type := by
  unfold operate typeOf?
  cases r.operation? o a b <;> rfl

/-- **The operators of arithmetic commute**, but for two literals of different types. -/
theorem typeOf?_operate_comm (hr : r.Built) (ha : r.IsNumber a) (hb : r.IsNumber b) {o : Operator}
    (ho : o ∈ [Operator.add, .multiply, .bitwiseAnd, .bitwiseOr]) (token : Token) :
    typeOf? (r.operate o token a b) = typeOf? (r.operate o token b a) ↔
      ¬ (a.isInteger = true ∧ b.isInteger = true ∧ a.type ≠ b.type) := by
  rw [typeOf?_operate, typeOf?_operate, operation?_number ha hb hr ho, operation?_number hb ha hr ho]
  by_cases hliterals : a.isInteger = true ∧ b.isInteger = true
  · -- Each literal takes the type of the other one, so the right one prevails.
    obtain ⟨hl, hs⟩ := hliterals
    obtain ⟨hpromote, hintegral⟩ := Known.promote_ofLiterals _ (ha.mem_ofLiterals hl)
    obtain ⟨hpromote', hintegral'⟩ := Known.promote_ofLiterals _ (hb.mem_ofLiterals hs)
    simp only [adapted_number ha hb, adapted_number hb ha, hl, hs, if_true, hpromote, hpromote', hintegral,
      hintegral', and_self, or_true, Option.map_some, Option.some.injEq, true_and, not_not]
    have hnames := IsNumber.typeName_predefined ha.mem
    have hnames' := IsNumber.typeName_predefined hb.mem
    rw [ha.type_inj hr hb]
    constructor
    · intro h
      rw [← hnames, ← hnames']
      exact (congrArg TypeDef.fullName h).symm
    · intro h
      rw [h]
  -- Otherwise the operands are adapted alike in either order, and promotion is symmetric.
  · have hswap := adapted_swap ha hb hliterals
    have hnot : ¬ (a.isInteger = true ∧ b.isInteger = true ∧ a.type ≠ b.type) :=
      fun h => hliterals ⟨h.1, h.2.1⟩
    rw [hswap, Prod.fst_swap, Prod.snd_swap, Known.promote_comm (a.adapted b).2]
    simp only [and_comm (a := Known.isIntegral (a.adapted b).2 = true), hnot, not_false_iff]

/-! ## §4. Equality. -/

/-- An integer literal can be equal to every number. -/
theorem equatable_of_isInteger (ha : r.IsNumber a) (hb : r.IsNumber b)
    (h : a.isInteger = true ∨ b.isInteger = true) :
    r.equatable a b = true := by
  have hpromote : (Known.promote (a.adapted b).1 (a.adapted b).2).isSome = true := by
    rw [adapted_number ha hb, Option.isSome_iff_ne_none]
    split
    · exact Known.promoteUnary_ne_none _ hb.mem
    · rename_i hl
      rw [if_pos (h.resolve_left hl)]
      exact Known.promoteUnary_ne_none _ ha.mem
  simp only [equatable, hpromote, Bool.or_true, Bool.true_or]

/-- **Whether two operands can be equal does not depend on their order.** -/
theorem equatable_comm (ha : r.IsNumber a) (hb : r.IsNumber b) : r.equatable a b = r.equatable b a := by
  by_cases h : a.isInteger = true ∨ b.isInteger = true
  · rw [equatable_of_isInteger ha hb h, equatable_of_isInteger hb ha h.symm]
  · have hswap := adapted_swap ha hb fun hboth => h (.inl hboth.1)
    have hsame : a.type.same b.type = b.type.same a.type :=
      Bool.eq_iff_iff.2 ⟨TypeDef.same_symm, TypeDef.same_symm⟩
    simp only [not_or, Bool.not_eq_true] at h
    simp only [equatable, ha.isNull, hb.isNull, hswap, h, hsame, Known.promote_comm (a.adapted b).1,
      Prod.fst_swap, Prod.snd_swap, Bool.and_false, Bool.or_false, Bool.false_or,
      Bool.or_right_comm _ (r.isAssignable b.type a.type)]

/-! ## §5. Branches. -/

/-- A number converts to the numbers that the table names, and a literal to all. -/
theorem converts_number (hr : r.Built) (ha : r.IsNumber a) (hb : r.IsNumber b) :
    r.converts a b.type = true ↔ a.isInteger = true ∨ Known.widens a.typeName b.typeName = true := by
  constructor
  · intro h
    rcases converts_cases h ha.isNull with hdiscard | ⟨hinteger, -⟩ | hvalue
    · rcases ha.form with hform | ⟨hform, -⟩ <;> rw [hform] at hdiscard <;> cases hdiscard
    · exact .inl (by rw [Operand.isInteger, hinteger]; rfl)
    · right
      have hself : Known.widens a.typeName a.typeName = true := by
        simp only [Known.widens, beq_self_eq_true, if_true]
        exact ha.arithmetic
      -- A value of a number type converts to that type, to a wider one, or to what it is assignable to.
      rcases converts_value.1 hvalue with hsame | hwidens | hassignable
      · rw [← (ha.type_inj hr hb).1 (hr.eq_of_same (hr.admits ha.knows) (.inl rfl) (.inr hb.knows) hsame)]
        exact hself
      · exact hwidens
      · rcases eq_or_object_of_number hr ha.knows hb.knows ha.arithmetic hassignable with hself' | hroot
        · rw [(hb.type_inj hr ha).1 hself']
          exact hself
        · exact absurd hb.arithmetic (by rw [Operand.typeName, hroot]; decide)
  · rintro (h | h)
    · exact converts_integer (by simpa [Operand.isInteger] using h) hb.arithmetic
    · exact converts_of_value (converts_value.2 (.inr (.inl h))) ha.isNull

/-- What two numbers have in common: the type of the first one to which the other one converts. -/
theorem typeOf?_unify (ha : r.IsNumber a) (hb : r.IsNumber b) : typeOf? (r.unify a b position) =
    if r.converts b a.type = true then some a.type
    else if r.converts a b.type = true then some b.type else none := by
  have hself : a.type.same b.type = true → r.converts b a.type = true := fun h =>
    converts_of_value (converts_value.2 (.inl (TypeDef.same_symm h))) hb.isNull
  unfold unify
  simp only [ha.isNull, hb.isNull, Bool.false_eq_true, if_false, Bool.false_or, Bool.or_eq_true]
  by_cases hback : r.converts b a.type = true
  · rw [if_pos (.inr hback), if_pos hback]
    rfl
  · rw [if_neg (not_or.2 ⟨fun h => hback (hself h), hback⟩), if_neg hback]
    split <;> rfl

/-- **The order of two branches makes a difference where each converts to the other's type.** -/
theorem typeOf?_unify_comm (hr : r.Built) (ha : r.IsNumber a) (hb : r.IsNumber b) :
    typeOf? (r.unify a b position) = typeOf? (r.unify b a position) ↔
      a.type = b.type ∨ ¬ ((a.isInteger = true ∨ Known.widens a.typeName b.typeName = true) ∧
        (b.isInteger = true ∨ Known.widens b.typeName a.typeName = true)) := by
  rw [typeOf?_unify ha hb, typeOf?_unify hb ha, ← converts_number hr ha hb, ← converts_number hr hb ha]
  by_cases hforth : r.converts a b.type = true <;> by_cases hback : r.converts b a.type = true <;>
    simp [hforth, hback]

/-! ## §6. The order of operands. -/

/-- **When the order of two numbers makes no difference.**  It never does to whether they can be equal.  To
an operator of arithmetic it does between two literals of different types, where the left one takes the type
of the right one.  To two branches it does if each of them converts to the type of the other one, as a
literal does to any number. -/
theorem operand_order (hr : r.Built) (ha : r.IsNumber a) (hb : r.IsNumber b) :
    (∀ o ∈ [Operator.add, .multiply, .bitwiseAnd, .bitwiseOr], ∀ token : Token,
      typeOf? (r.operate o token a b) = typeOf? (r.operate o token b a) ↔
        ¬ (a.isInteger = true ∧ b.isInteger = true ∧ a.type ≠ b.type)) ∧
    r.equatable a b = r.equatable b a ∧
    ∀ position, typeOf? (r.unify a b position) = typeOf? (r.unify b a position) ↔
      a.type = b.type ∨ ¬ ((a.isInteger = true ∨ Known.widens a.typeName b.typeName = true) ∧
        (b.isInteger = true ∨ Known.widens b.typeName a.typeName = true)) :=
  ⟨fun _ ho token => typeOf?_operate_comm hr ha hb ho token, equatable_comm ha hb,
    fun _ => typeOf?_unify_comm hr ha hb⟩

/-- A long literal before a short one is calculated with as if it were short, and so is it as a branch. -/
theorem operand_order_of_literals :
    let long : Operand := { Operand.predefined Known.int64 with form := .integer }
    let short : Operand := { Operand.predefined Known.int32 with form := .integer }
    Literal.integerType? "5000000000" = some long.typeName ∧ Literal.integerType? "1" = some short.typeName ∧
    (∀ token, typeOf? (empty.operate .add token long short) ≠ typeOf? (empty.operate .add token short long)) ∧
    empty.equatable long short = empty.equatable short long ∧
    ∀ position, typeOf? (empty.unify long short position) ≠ typeOf? (empty.unify short long position) := by
  intro long short
  have hlong : Literal.integerType? "5000000000" = some long.typeName := by decide +kernel
  have hshort : Literal.integerType? "1" = some short.typeName := by decide +kernel
  have hne : long.type ≠ short.type := by decide
  -- A literal is a number of the type that its text has.
  have ha : empty.IsNumber long :=
    ⟨knows_predefined (by decide), by decide +kernel, .inr ⟨rfl, "5000000000", hlong⟩⟩
  have hb : empty.IsNumber short :=
    ⟨knows_predefined (by decide), by decide +kernel, .inr ⟨rfl, "1", hshort⟩⟩
  obtain ⟨hoperate, hequatable, hunify⟩ := operand_order Built.empty ha hb
  refine ⟨hlong, hshort, ?_, hequatable, ?_⟩
  · intro token h
    exact (hoperate .add (by decide) token).1 h ⟨rfl, rfl, hne⟩
  · intro position h
    exact ((hunify position).1 h).elim hne fun hnot => hnot ⟨.inl rfl, .inl rfl⟩

end Registry

end TypeAhead
