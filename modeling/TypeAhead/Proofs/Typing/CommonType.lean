/-
  TypeAhead.Proofs.Typing.CommonType — WHAT OPERANDS HAVE IN COMMON.

  Two operands have a type in common if one converts to the type of the other; then
  both convert to it.  Null goes along with everything, also with types that have no
  null.  The elements of an array are put together one by one, and an element that was
  read early is not looked at again when the common type moves on, so it converts to
  the last one only where conversions compose.  That condition is exact, and it holds
  of the types of a registry in which no base of an interface is left out and no type
  is declared over a number.

      unify_fits              two operands
      composes_iff            the elements of an array
      composes_of_covers      where conversions compose
-/
import TypeAhead.Proofs.Types.Assignable
import TypeAhead.Typing.Operand

namespace TypeAhead.Registry

variable {r : Registry} {a b c : Operand} {t u : TypeDef} {position : Nat}

/-! ## §1. Conversions. -/

/-- The operand converts to the type, or it is null and no value of the type is. -/
def Fits (r : Registry) (a : Operand) (t : TypeDef) : Prop :=
  r.converts a t = true ∨ a.isNull = true ∧ t.isValueType = true

/-- A null is written as such. -/
theorem form_of_isNull (h : a.isNull = true) : a.form = .null := by
  unfold Operand.isNull at h
  simpa using h

/-- Null converts to what has a null. -/
theorem converts_of_isNull (h : a.isNull = true) : r.converts a t = !t.isValueType := by
  unfold converts
  rw [form_of_isNull h]

/-- A null fits every type. -/
theorem fits_of_isNull (h : a.isNull = true) : r.Fits a t := by
  unfold Fits
  rw [converts_of_isNull h]
  cases t.isValueType with
  | true => exact .inr ⟨h, rfl⟩
  | false => exact .inl rfl

/-- What fits and is no null is converted. -/
theorem Fits.converts (h : r.Fits a t) (hnull : a.isNull = false) : r.converts a t = true := by
  rcases h with h | ⟨h, -⟩
  · exact h
  · rw [hnull] at h
    cases h

/-- A value converts along the chain of its type and along the table of numbers. -/
theorem converts_value : r.converts (.value t) u = true ↔
    t.same u = true ∨ Known.widens t.fullName u.fullName = true ∨ r.isAssignable t u = true := by
  show (false || t.same u || Known.widens t.fullName u.fullName || r.isAssignable t u) = true ↔ _
  simp [or_assoc]

/-- An operand that is not null converts to whatever values of its type do. -/
theorem converts_of_value (h : r.converts (.value a.type) t = true) (hnull : a.isNull = false) :
    r.converts a t = true := by
  rw [converts_value] at h
  unfold converts
  split
  · rfl
  · rename_i hform
    rw [Operand.isNull, hform] at hnull
    cases hnull
  · simp only [Bool.or_eq_true]
    rcases h with h | h | h
    · exact .inl (.inl (.inr h))
    · exact .inl (.inr h)
    · exact .inr h

/-- A value has its own type. -/
theorem converts_self (hnull : a.isNull = false) : r.converts a a.type = true :=
  converts_of_value (converts_value.2 (.inl a.type.same_refl)) hnull

/-- A value is no null. -/
theorem isNull_value : (Operand.value t).isNull = false := rfl

/-! ## §2. Two operands. -/

/-- **What two operands have in common.**  Null takes what the other operand is; otherwise the type of
the first operand goes before that of the second one. -/
theorem unify_cases (h : r.unify a b position = .ok c) :
    (a.isNull = true ∧ c = { b with name := none }) ∨
    (a.isNull = false ∧ c = .value a.type ∧ (b.isNull = true ∨ r.converts b a.type = true)) ∨
    (a.isNull = false ∧ b.isNull = false ∧ c = .value b.type ∧ r.converts a b.type = true ∧
      r.converts b a.type = false) := by
  unfold unify at h
  -- A null operand takes the other one as it is.
  cases hnull : a.isNull with
  | true =>
    rw [if_pos hnull] at h
    cases h
    exact .inl ⟨rfl, rfl⟩
  | false =>
    rw [if_neg (by simp [hnull])] at h
    right
    split at h
    -- The first type stays where the other operand is null, of that type or convertible.
    · rename_i hfirst
      cases h
      left
      refine ⟨rfl, rfl, ?_⟩
      cases hother : b.isNull with
      | true => exact .inl rfl
      | false =>
        right
        simp only [hother, Bool.false_or, Bool.or_eq_true] at hfirst
        rcases hfirst with hsame | hconverts
        · exact converts_of_value (converts_value.2 (.inl (TypeDef.same_symm hsame))) hother
        · exact hconverts
    · rename_i hfirst
      simp only [Bool.or_eq_true, not_or, Bool.not_eq_true] at hfirst
      obtain ⟨⟨hother, -⟩, hfirst⟩ := hfirst
      split at h
      -- Else the second type is taken, if the first operand converts to it.
      · rename_i hsecond
        cases h
        exact .inr ⟨rfl, hother, rfl, hsecond, hfirst⟩
      · cases h

/-- **Both of two operands convert to what they have in common**, but for null among values. -/
theorem unify_fits (h : r.unify a b position = .ok c) : r.Fits a c.type ∧ r.Fits b c.type := by
  rcases unify_cases h with ⟨hnull, rfl⟩ | ⟨hnull, rfl, hother⟩ | ⟨hnull, hother, rfl, hconverts, -⟩
  · refine ⟨fits_of_isNull hnull, ?_⟩
    show r.Fits b b.type
    cases hother : b.isNull with
    | true => exact fits_of_isNull hother
    | false => exact .inl (converts_self hother)
  · refine ⟨.inl (converts_self hnull), ?_⟩
    rcases hother with hother | hother
    · exact fits_of_isNull hother
    · exact .inl hother
  · exact ⟨.inl hconverts, .inl (converts_self hother)⟩

/-! ## §3. The elements of an array. -/

/-- Conversions compose among operands: if one of them converts to the type of a second one and values
of that to the type of a third one, but not back, then the first one converts to the type of the third. -/
def Composes (r : Registry) (operands : List Operand) : Prop :=
  ∀ a ∈ operands, ∀ b ∈ operands, ∀ c ∈ operands,
    a.isNull = false → b.isNull = false → c.isNull = false → r.converts a b.type = true →
      r.converts (.value b.type) c.type = true → r.converts c b.type = false → r.converts a c.type = true

/-- What the operands read so far have in common.  Its form is that of an operand only while there is no
other one but null. -/
structure InCommon (r : Registry) (read : List Operand) (common : Operand) : Prop where
  fits : ∀ a ∈ read, r.Fits a common.type
  type : ∃ b ∈ read, b.type = common.type ∧ b.isNull = common.isNull
  form : common.form = .plain ∨
    ∀ a ∈ read, a.isNull = true ∨ (a.form = common.form ∧ a.type = common.type)

/-- A single operand has its type in common with itself. -/
theorem inCommon_single (a : Operand) : r.InCommon [a] a where
  fits := by
    intro b hb
    rw [List.mem_singleton.1 hb]
    cases hnull : a.isNull with
    | true => exact fits_of_isNull hnull
    | false => exact .inl (converts_self hnull)
  type := ⟨a, List.mem_cons_self, rfl, rfl⟩
  form := by
    right
    intro b hb
    rw [List.mem_singleton.1 hb]
    exact .inr ⟨rfl, rfl⟩

/-- What converts is a matter of the form and the type. -/
theorem converts_congr (hform : a.form = b.form) (htype : a.type = b.type) :
    r.converts a t = r.converts b t := by
  unfold converts Operand.typeName
  rw [hform, htype]

section

variable {operands read : List Operand}

/-- **One more element.** -/
theorem InCommon.unify (hcompose : r.Composes operands) (h : r.InCommon read a)
    (hread : ∀ c ∈ read, c ∈ operands) (hb : b ∈ operands) (hc : r.unify a b position = .ok c) :
    r.InCommon (read ++ [b]) c := by
  have hfits := unify_fits hc
  obtain ⟨source, hsource, htype, hnull'⟩ := h.type
  -- While the common operand is null, so are all that were read.
  have hnulls : a.isNull = true → ∀ d ∈ read, d.isNull = true := by
    intro hnull d hd
    rcases h.form with hplain | hall
    · rw [Operand.isNull, hplain] at hnull
      cases hnull
    · rcases hall d hd with hd | ⟨hform, -⟩
      · exact hd
      · rw [Operand.isNull, hform]
        exact hnull
  -- What holds of the earlier operands and of the new one holds of all.
  have hconcat : ∀ {P : Operand → Prop}, (∀ d ∈ read, P d) → P b → ∀ d ∈ read ++ [b], P d := by
    intro P hold hnew d hd
    rcases List.mem_append.1 hd with hd | hd
    · exact hold d hd
    · rw [List.mem_singleton.1 hd]
      exact hnew
  -- The common operand was null, or it keeps its type, or it takes that of the new element.
  rcases unify_cases hc with ⟨hnull, rfl⟩ | ⟨hnull, rfl, -⟩ | ⟨hnull, hother, rfl, hconverts, hback⟩
  · refine ⟨hconcat (fun d hd => fits_of_isNull (hnulls hnull d hd)) hfits.2, ⟨b, by simp, rfl, rfl⟩, ?_⟩
    exact .inr (hconcat (fun d hd => .inl (hnulls hnull d hd)) (.inr ⟨rfl, rfl⟩))
  · refine ⟨hconcat h.fits hfits.2, ⟨source, by simp [hsource], htype, ?_⟩, .inl rfl⟩
    rw [hnull', hnull, isNull_value]
  · refine ⟨hconcat ?_ hfits.2, ⟨b, by simp, rfl, hother⟩, .inl rfl⟩
    intro d hd
    cases hd' : d.isNull with
    | true => exact fits_of_isNull hd'
    | false =>
      left
      rcases h.form with hplain | hall
      · -- An element read earlier converts to the old type, and values of that to the new one.
        have hvalue : r.converts (.value source.type) b.type = true := by
          rw [converts_congr (a := .value source.type) (b := a) hplain.symm htype]
          exact hconverts
        apply hcompose d (hread d hd) source (hread source hsource) b hb hd' (hnull'.trans hnull) hother
          _ hvalue (by rw [htype]; exact hback)
        rw [htype]
        exact (h.fits d hd).converts hd'
      · rcases hall d hd with hd | ⟨hform, htype⟩
        · rw [hd'] at hd
          cases hd
        · show r.converts d b.type = true
          rw [converts_congr hform htype]
          exact hconverts

/-- All the elements that are left. -/
theorem InCommon.unifyAll {elements : List Operand} (hcompose : r.Composes operands)
    (h : r.InCommon read a) (hread : ∀ c ∈ read, c ∈ operands) (helements : ∀ c ∈ elements, c ∈ operands)
    (hc : r.unifyAll position (some a) elements = .ok (some c)) : r.InCommon (read ++ elements) c := by
  -- By induction on the elements that are left; those that were read grow by one each time.
  induction elements generalizing read a with
  | nil =>
    cases hc
    rw [List.append_nil]
    exact h
  | cons b elements ih =>
    rw [Registry.unifyAll] at hc
    split at hc
    · cases hc
    · rename_i common hunify
      have hb := helements b List.mem_cons_self
      have hstep := h.unify hcompose hread hb hunify
      have hread : ∀ c ∈ read ++ [b], c ∈ operands := by
        intro c hc
        rcases List.mem_append.1 hc with hc | hc
        · exact hread c hc
        · rw [List.mem_singleton.1 hc]
          exact hb
      have hall := ih hstep hread (fun c hc => helements c (List.mem_cons_of_mem b hc)) hc
      rwa [List.append_assoc] at hall

/-- **The elements of an array convert to what they have in common**, where conversions compose. -/
theorem unifyAll_fits (hcompose : r.Composes operands) (h : r.unifyAll position none operands = .ok (some c)) :
    ∀ a ∈ operands, r.Fits a c.type := by
  cases operands with
  | nil => cases h
  | cons a elements =>
    have hsingle : ∀ c ∈ [a], c ∈ a :: elements := by simp
    have hrest : ∀ c ∈ elements, c ∈ a :: elements := fun c hc => List.mem_cons_of_mem a hc
    exact ((inCommon_single a).unifyAll hcompose hsingle hrest h).fits

/-- Only no elements have nothing in common. -/
theorem eq_nil_of_unifyAll {elements : List Operand} (h : r.unifyAll position none elements = .ok none) :
    elements = [] := by
  have hsome : ∀ (rest : List Operand) (a : Operand), r.unifyAll position (some a) rest ≠ .ok none := by
    intro rest
    induction rest with
    | nil => exact nofun
    | cons b rest ih =>
      intro a h
      rw [Registry.unifyAll] at h
      split at h
      · cases h
      · exact ih _ h
  cases elements with
  | nil => rfl
  | cons a rest => exact absurd h (hsome rest a)

/-- Two operands always compose. -/
theorem composes_pair (a b : Operand) : r.Composes [a, b] := by
  have hself : ∀ d : Operand, d.isNull = false → r.converts d d.type = true := fun _ => converts_self
  intro x hx y hy z hz hxnull hynull hznull hxy hyz hback
  simp only [List.mem_cons, List.not_mem_nil, or_false] at hx hy hz
  by_cases hyz' : y = z
  · rw [← hyz', hself y hynull] at hback
    cases hback
  · by_cases hxz : x = z
    · rw [← hxz, hxy] at hback
      cases hback
    · -- Of three operands out of two, the first and the second one are the same.
      have hxy' : x = y := by
        rcases hx with rfl | rfl <;> rcases hy with rfl | rfl <;> rcases hz with rfl | rfl <;> simp_all
      rw [hxy']
      exact converts_of_value hyz hynull

/-- **That is exactly so where conversions compose**: otherwise there are three operands of which an array
has a type to which its second element does not convert. -/
theorem composes_iff : r.Composes operands ↔
    ∀ elements : List Operand, (∀ a ∈ elements, a ∈ operands) → ∀ position c,
      r.unifyAll position none elements = .ok (some c) → ∀ a ∈ elements, r.Fits a c.type := by
  constructor
  · intro h elements hsub position c hc
    apply unifyAll_fits _ hc
    intro a ha b hb c hc
    exact h a (hsub a ha) b (hsub b hb) c (hsub c hc)
  · intro h a ha b hb c hc hanull hbnull hcnull hab hbc hback
    -- While the type is that of `b` the array takes `a` in, and then `c` sets another type.
    have hsub : ∀ d ∈ [b, a, c], d ∈ operands := by simp [ha, hb, hc]
    have hfirst : r.unify b a 0 = .ok (.value b.type) := by
      unfold unify
      rw [if_neg (by simp [hbnull]), if_pos (by simp [hab])]
    -- The types differ, for else `c` would convert back.
    have hnotSame : b.type.same c.type = false := by
      cases hsame : b.type.same c.type with
      | false => rfl
      | true =>
        have := converts_of_value (converts_value.2 (.inl (TypeDef.same_symm hsame))) hcnull (r := r)
        rw [hback] at this
        cases this
    have hsecond : r.unify (.value b.type) c 0 = .ok (.value c.type) := by
      unfold unify
      rw [if_neg (by simp [isNull_value]), if_neg, if_pos hbc]
      simp [hcnull, hback, Operand.value, hnotSame]
    have hall : r.unifyAll 0 none [b, a, c] = .ok (some (.value c.type)) := by
      simp only [Registry.unifyAll, hfirst, hsecond]
    exact (h [b, a, c] hsub 0 _ hall a (by simp)).converts hanull

end

/-! ## §4. Where conversions compose. -/

/-- The numbers and the characters. -/
def numbers : List String := Known.char :: Known.numeric

/-- The arithmetic types are the numbers. -/
theorem isArithmetic_iff {name : String} : Known.isArithmetic name = true ↔ name ∈ numbers := by
  unfold Known.isArithmetic Known.isIntegral
  simp [numbers, Known.numeric]
  tauto

/-- The table of numbers is about numbers, and it is closed: what widens twice widens at once. -/
theorem widens_closed : ∀ x ∈ numbers, ∀ y ∈ numbers, ∀ z ∈ numbers,
    Known.widens x y = true → Known.widens y z = true → Known.widens x z = true := by decide +kernel

/-- Only numbers are widened, and only to numbers. -/
theorem numbers_of_widens {x y : String} (h : Known.widens x y = true) : x ∈ numbers ∧ y ∈ numbers := by
  have htable : ∀ entry ∈ Known.widenings, entry.1 ∈ numbers ∧ ∀ y ∈ entry.2, y ∈ numbers := by decide
  unfold Known.widens at h
  split at h
  · rename_i heq
    have hx := isArithmetic_iff.1 h
    rw [beq_iff_eq] at heq
    exact ⟨hx, heq ▸ hx⟩
  · cases hlookup : Known.widenings.lookup x with
    | none =>
      rw [hlookup] at h
      cases h
    | some targets =>
      rw [hlookup] at h
      obtain ⟨hx, htargets⟩ := htable _ (mem_of_lookup hlookup)
      exact ⟨hx, htargets y (by simpa using h)⟩

/-- What is widened in two steps is widened in one. -/
theorem widens_trans {x y z : String} (hxy : Known.widens x y = true) (hyz : Known.widens y z = true) :
    Known.widens x z = true :=
  widens_closed x (numbers_of_widens hxy).1 y (numbers_of_widens hxy).2 z (numbers_of_widens hyz).2 hxy hyz

/-- No type of the registry is declared over a number. -/
def NumbersApart (r : Registry) : Prop :=
  ∀ t u, r.Knows t → r.Declares t u → Known.isArithmetic u.fullName = false

/-- What is assignable is declared on the way, or the root. -/
theorem declared_of_isAssignable (hr : r.Built) (ht : r.Knows t) (hu : r.Knows u)
    (h : r.isAssignable t u = true) :
    Relation.ReflTransGen r.Declares t u ∨ u = Predefined.objectType := by
  have hadmits := hr.admits ht
  rcases (mem_lookupChain hr hadmits).1 ((isAssignable_iff hr hadmits hu).1 h) with hu | hu | hroot
  · exact InheritsFrom.declared ⟨u, hasBase_of_mem_baseChain hu, .refl⟩
  · obtain ⟨b, hb, hinterface⟩ := implements_of_mem_interfaces hu
    exact InheritsFrom.declared ⟨b, hasBase_of_mem_baseChain hb, hinterface⟩
  · exact .inr hroot

/-- A number is only what it is. -/
theorem eq_of_isAssignable_number (hr : r.Built) (hnumbers : r.NumbersApart) (ht : r.Knows t)
    (hu : r.Knows u) (hname : Known.isArithmetic u.fullName = true) (h : r.isAssignable t u = true) :
    t = u := by
  rcases declared_of_isAssignable hr ht hu h with hdeclared | rfl
  · rcases hdeclared.cases_tail with heq | ⟨v, hv, hstep⟩
    · exact heq.symm
    · have hknown : r.Knows v := by
        rcases hv.cases_tail with rfl | ⟨x, -, hx⟩
        · exact ht
        · exact hx.knows
      rw [hnumbers v u hknown hstep] at hname
      cases hname
  · exact absurd hname (by decide)

/-- The types of numbers declare nothing. -/
theorem not_declares_of_number (hr : r.Built) (ht : r.Knows t)
    (hname : Known.isArithmetic t.fullName = true) : ¬ r.Declares t u := by
  have hpredefined : ∀ name ∈ numbers, ∃ t ∈ predefined, t.fullName = name ∧ t.base = none ∧
      t.interfaces = [] := by decide +kernel
  obtain ⟨number, hmem, hfull, hbase, hinterfaces⟩ := hpredefined _ (isArithmetic_iff.1 hname)
  have hknown := hr.get?_fullName ht
  rw [← hfull, get?_predefined hmem] at hknown
  cases hknown
  rintro (⟨hdeclared, -⟩ | ⟨name, hmem, -⟩)
  · rw [hbase] at hdeclared
    cases hdeclared
  · rw [hinterfaces] at hmem
    cases hmem

/-- So a number is assignable to itself and to the root. -/
theorem eq_or_object_of_number (hr : r.Built) (ht : r.Knows t) (hu : r.Knows u)
    (hname : Known.isArithmetic t.fullName = true) (h : r.isAssignable t u = true) :
    u = t ∨ u = Predefined.objectType := by
  rcases declared_of_isAssignable hr ht hu h with hdeclared | hroot
  · rcases hdeclared.cases_head with heq | ⟨v, hstep, -⟩
    · exact .inl heq.symm
    · exact absurd hstep (not_declares_of_number hr ht hname)
  · exact .inr hroot

/-- Without interfaces no base is left out. -/
theorem covers_of_no_interfaces (hnone : ∀ t, r.Knows t → t.interfaces = []) (ht : r.Knows t) :
    r.Covers t := by
  rintro u b ⟨v, hbase, hinterface⟩ hub
  have hknown : r.Knows v := by
    rcases hbase.cases_tail with rfl | ⟨x, -, hx⟩
    · exact ht
    · exact hx.knows
  left
  rcases hinterface.cases_head with rfl | ⟨x, ⟨name, hname, -⟩, -⟩
  · exact ⟨b, hbase.tail hub, .refl⟩
  · rw [hnone v hknown] at hname
    cases hname

/-- Everything but a null converts to `System.Object`. -/
theorem converts_object (hnull : a.isNull = false) : r.converts a Predefined.objectType = true := by
  apply converts_of_value _ hnull
  rw [converts_value]
  right
  right
  unfold isAssignable
  have hroot : (Predefined.objectType.fullName == Known.object) = true := by decide
  simp [hroot]

/-- How an operand that is not null converts: as a discard, as an integer literal, or as a value. -/
theorem converts_cases (h : r.converts a t = true) (hnull : a.isNull = false) :
    a.form = .discard ∨ (a.form = .integer ∧ Known.isArithmetic t.fullName = true) ∨
      r.converts (.value a.type) t = true := by
  rw [converts_value]
  unfold converts at h
  split at h
  · rename_i hform
    exact .inl hform
  · rename_i hform
    rw [Operand.isNull, hform] at hnull
    cases hnull
  · simp only [Bool.or_eq_true, Bool.and_eq_true, beq_iff_eq] at h
    rcases h with ((h | h) | h) | h
    · exact .inr (.inl h)
    · exact .inr (.inr (.inl h))
    · exact .inr (.inr (.inr (.inl h)))
    · exact .inr (.inr (.inr (.inr h)))

/-- An integer literal converts to every number. -/
theorem converts_integer (h : a.form = .integer) (hname : Known.isArithmetic t.fullName = true) :
    r.converts a t = true := by
  unfold converts
  rw [h]
  simp [hname]

/-- **Where conversions compose.**  In a registry in which no base of an interface is left out, no type is
declared over a number and hierarchies are of moderate size, they do among all operands of its types. -/
theorem composes_of_covers {operands : List Operand} (hr : r.Built)
    (hfew : ∀ t, r.Knows t → r.ReachesFew t ∧ r.NamesFew t) (hcovers : ∀ t, r.Knows t → r.Covers t)
    (hnumbers : r.NumbersApart) (hknows : ∀ a ∈ operands, r.Knows a.type) : r.Composes operands := by
  have htrans := (isAssignable_trans_iff hr hfew).2 hcovers
  have hsame : ∀ {t u : TypeDef}, r.Knows t → r.Knows u → t.same u = true → t = u :=
    fun ht hu => hr.eq_of_same (hr.admits ht) (.inl rfl) (.inr hu)
  intro a ha b hb c hc hanull _ _ hab hbc _
  have hka := hknows a ha
  have hkb := hknows b hb
  have hkc := hknows c hc
  -- The cases are the ways to convert: first those of `a` to the type of `b`, then those of `b` to that of `c`.
  rcases converts_cases hab hanull with hdiscard | ⟨hinteger, hbname⟩ | hvalue
  · unfold converts
    rw [hdiscard]
  · -- A literal goes from number to number, and from there to the root.
    rcases converts_value.1 hbc with hbc | hbc | hbc
    · rw [← hsame hkb hkc hbc]
      exact hab
    · exact converts_integer hinteger (isArithmetic_iff.2 (numbers_of_widens hbc).2)
    · rcases eq_or_object_of_number hr hkb hkc hbname hbc with heq | hroot
      · rw [heq]
        exact hab
      · rw [hroot]
        exact converts_object hanull
  · apply converts_of_value _ hanull
    rcases converts_value.1 hvalue with hab | hab | hab
    · rw [hsame hka hkb hab]
      exact hbc
    · rcases converts_value.1 hbc with hbc | hbc | hbc
      · rw [← hsame hkb hkc hbc]
        exact hvalue
      · exact converts_value.2 (.inr (.inl (widens_trans hab hbc)))
      · -- From a number only the root is assignable besides that number.
        have hbname := isArithmetic_iff.2 (numbers_of_widens hab).2
        rcases eq_or_object_of_number hr hkb hkc hbname hbc with heq | hroot
        · rw [heq]
          exact hvalue
        · rw [hroot]
          exact converts_object isNull_value
    · rcases converts_value.1 hbc with hbc | hbc | hbc
      · rw [← hsame hkb hkc hbc]
        exact hvalue
      · -- Nothing else is assignable to a number.
        have hbname := isArithmetic_iff.2 (numbers_of_widens hbc).1
        rw [eq_of_isAssignable_number hr hnumbers hka hkb hbname hab]
        exact converts_value.2 (.inr (.inl hbc))
      · exact converts_value.2 (.inr (.inr (htrans _ _ _ hka hkb hkc hab hbc)))

end TypeAhead.Registry
