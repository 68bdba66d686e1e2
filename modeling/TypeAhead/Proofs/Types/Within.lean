/-
  TypeAhead.Proofs.Types.Within — THE TYPES THAT ARE REACHED FROM A CONTEXT.

  From the types that an expression may name it gets to others: to bases and
  interfaces, to the types of members and of elements, to arrays, and to the types
  that `new (…)` makes.  The least set that holds them all is closed under
  everything that typing does: under looking up members along the lookup chain,
  under the operators and under those of sequences.

      within_lookupChain     where members are found
      memberType_of_…        what members are found
      within_operate         what operators make, and the other operations
-/
import TypeAhead.Proofs.Types.Loaded
import TypeAhead.Proofs.Typing.Overloads
import TypeAhead.Typing.Grammar

namespace TypeAhead

/-- The full names of the types to which the members of a type lead: those of its fields and
properties, the results of its methods and the elements behind its indexers. -/
def TypeDef.memberTypes (t : TypeDef) : List String :=
  t.fields.map DataMember.type ++ t.properties.map DataMember.type ++ t.methods.map Method.returns ++
    t.indexers.map Indexer.type

namespace Registry

/-! ## §1. The types that are reached. -/

/-- The least set of types that holds those that an expression may name in the context and those of
`named`, and is closed under bases and interfaces, the types of members and of elements, arrays and
types that are made from members. -/
inductive Within (r : Registry) (context : TypeDef) (named : TypeDef → Prop) : TypeDef → Prop where
  | accessible {t : TypeDef} (h : t ∈ r.accessible (some context)) : Within r context named t
  | named {t : TypeDef} (h : named t) : Within r context named t
  | base {t u : TypeDef} (h : Within r context named t) (hu : r.baseType? t = some u) :
      Within r context named u
  | interface {t u : TypeDef} {name : String} (h : Within r context named t)
      (hname : name ∈ t.interfaces) (hu : r.get? name = some u) : Within r context named u
  | member {t u : TypeDef} {name : String} (h : Within r context named t)
      (hname : name ∈ t.memberTypes) (hu : r.get? name = some u) : Within r context named u
  | element {t u : TypeDef} {name : String} (h : Within r context named t)
      (hname : t.elementType = some name) (hu : r.get? name = some u) : Within r context named u
  | array {t : TypeDef} (h : Within r context named t) : Within r context named t.array
  | anonymous {members : List (String × Operand)}
      (h : ∀ m ∈ members, Within r context named m.2.type) :
      Within r context named (Typing.Rule.anonymous members)

variable {r : Registry} {context t u : TypeDef} {named named' : TypeDef → Prop} {a b c : Operand}
  {name : String} {binding : Binding} {ignoreCase : Bool} {position : Nat}

/-- Fewer names reach fewer types. -/
theorem Within.of_named (h : Within r context named t) (hnamed : ∀ t, named t → Within r context named' t) :
    Within r context named' t := by
  induction h with
  | accessible h => exact .accessible h
  | named h => exact hnamed _ h
  | base _ hu ih => exact .base ih hu
  | interface _ hname hu ih => exact .interface ih hname hu
  | member _ hname hu ih => exact .member ih hname hu
  | element _ hname hu ih => exact .element ih hname hu
  | array _ ih => exact .array ih
  | anonymous _ ih => exact .anonymous ih

theorem within_predefined (h : t ∈ predefined) : Within r context named t := by
  apply Within.accessible
  unfold accessible
  exact List.mem_append_left _ (List.mem_append_left _ h)

/-- A value of a predefined type. -/
theorem within_predefinedValue (name : String) : Within r context named (Operand.predefined name).type := by
  apply within_predefined
  show (predefinedNamed.lookup name).getD Predefined.objectType ∈ predefined
  cases h : predefinedNamed.lookup name with
  | none => exact List.mem_cons_self
  | some t => exact mem_predefined h

/-- The root of all classes. -/
theorem within_object (h : r.get? Known.object = some t) : Within r context named t := by
  have hroot : isPredefined Known.object = true := by decide
  obtain ⟨u, hu, hmeans⟩ := exists_predefined (r := r) hroot
  rw [hmeans] at h
  cases h
  exact within_predefined hu

/-- A keyword means a predefined type. -/
theorem within_keyword (h : (Known.ofKeyword? name).bind r.get? = some t) : Within r context named t := by
  obtain ⟨full, hkeyword, hget⟩ := Option.bind_eq_some_iff.1 h
  obtain ⟨u, hu, hmeans⟩ := exists_predefined (r := r) (isPredefined_of_keyword hkeyword)
  rw [hmeans] at hget
  cases hget
  exact within_predefined hu

/-- What an expression may name. -/
theorem within_accessible (h : r.findAccessible? name (some context) = some t) :
    Within r context named t :=
  .accessible (List.mem_of_find?_eq_some h)

/-- The type of the context. -/
theorem within_context : Within r context named context := by
  apply Within.accessible
  unfold accessible hierarchy
  exact List.mem_append_right _ (List.mem_append_right _ (mem_baseChain r context))

/-! ## §2. Where members are found. -/

/-- What is inherited from a type that is reached is reached. -/
theorem inherited_within : r.Inherited (Within r context named) where
  base := .base
  interface := .interface

/-- **Members are found in types within.** -/
theorem within_lookupChain (ht : Within r context named t) :
    ∀ u ∈ r.lookupChain t, Within r context named u :=
  inherited_within.lookupChain (fun _ => within_object) ht

/-- The type of the elements of a sequence. -/
theorem within_elementType (ht : Within r context named t) (h : r.elementType? t = some u) :
    Within r context named u := by
  obtain ⟨name, hname, hget⟩ := Option.bind_eq_some_iff.1 h
  obtain ⟨owner, howner, helement⟩ := List.exists_of_findSome?_eq_some hname
  exact (within_lookupChain ht owner howner).element helement hget

/-! ## §3. What members are found. -/

/-- The name is that of the type of a member of a type within. -/
def IsMemberType (r : Registry) (context : TypeDef) (named : TypeDef → Prop) (name : String) : Prop :=
  ∃ t, Within r context named t ∧ name ∈ t.memberTypes

/-- The type of a member is reached, if the registry has it. -/
theorem IsMemberType.within (h : IsMemberType r context named name) (hget : r.get? name = some t) :
    Within r context named t := by
  obtain ⟨owner, howner, hname⟩ := h
  exact howner.member hname hget

/-- The names of the types of members are among those that a type mentions. -/
theorem mentions_of_memberTypes (h : name ∈ t.memberTypes) : name ∈ t.mentions := by
  unfold TypeDef.memberTypes at h
  unfold TypeDef.mentions
  simp only [List.mem_append, List.mem_map, List.mem_flatMap] at h ⊢
  rcases h with ((h | h) | ⟨m, hm, rfl⟩) | ⟨i, hi, rfl⟩
  · exact .inl (.inl (.inl (.inl (.inr h))))
  · exact .inl (.inl (.inl (.inr h)))
  · exact .inl (.inl (.inr ⟨m, hm, List.mem_cons_self⟩))
  · exact .inl (.inr ⟨i, hi, List.mem_cons_self⟩)

/-- A field or a property leads to the type of a member. -/
theorem memberType_of_member? {m : FoundMember} (h : t.member? name binding ignoreCase = some m) :
    m.type ∈ t.memberTypes := by
  unfold TypeDef.member? at h
  unfold TypeDef.memberTypes
  simp only [List.mem_append, List.mem_map]
  split at h
  · rename_i field hfield
    cases h
    exact .inl (.inl (.inl ⟨field, List.mem_of_find?_eq_some hfield, rfl⟩))
  · obtain ⟨property, hproperty, rfl⟩ := Option.map_eq_some_iff.1 h
    exact .inl (.inl (.inr ⟨property, List.mem_of_find?_eq_some hproperty, rfl⟩))

/-- A member that is found is one of a type that is reached. -/
theorem memberType_of_findMember? (ht : Within r context named t) {m : FoundMember}
    (h : r.findMember? t name binding ignoreCase = some m) : IsMemberType r context named m.type := by
  obtain ⟨owner, howner, hfound⟩ := List.exists_of_findSome?_eq_some h
  exact ⟨owner, within_lookupChain ht owner howner, memberType_of_member? hfound⟩

/-- A method that is found is one of a type that is reached, and so is its result. -/
theorem memberType_of_mem_findMethods (ht : Within r context named t) {m : Method}
    (h : m ∈ r.findMethods t name binding ignoreCase) : IsMemberType r context named m.returns := by
  rcases Method.adds_addNew.mem_or_mem h with h | h
  · cases h
  · obtain ⟨owner, howner, hmethod⟩ := List.mem_flatMap.1 h
    refine ⟨owner, within_lookupChain ht owner howner, ?_⟩
    unfold TypeDef.memberTypes
    simp only [List.mem_append, List.mem_map]
    exact .inl (.inr ⟨m, (List.mem_filter.1 hmethod).1, rfl⟩)

/-- An indexer that is found is one of a type that is reached. -/
theorem memberType_of_mem_findIndexers (ht : Within r context named t) {i : Indexer}
    (h : i ∈ r.findIndexers t) : IsMemberType r context named i.type := by
  unfold findIndexers at h
  cases hfound : ((r.lookupChain t).map TypeDef.indexers).find? fun indexers => !indexers.isEmpty with
  | none =>
    rw [hfound] at h
    cases h
  | some indexers =>
    rw [hfound] at h
    obtain ⟨owner, howner, rfl⟩ := List.mem_map.1 (List.mem_of_find?_eq_some hfound)
    refine ⟨owner, within_lookupChain ht owner howner, ?_⟩
    unfold TypeDef.memberTypes
    simp only [List.mem_append, List.mem_map]
    exact .inr ⟨i, h, rfl⟩

/-! ## §4. What operators make. -/

/-- A common type is that of either operand, or its lifted one. -/
theorem within_unify (ha : Within r context named a.type) (hb : Within r context named b.type)
    (h : r.unify a b position = .ok c) : Within r context named c.type := by
  unfold unify at h
  repeat' split at h
  all_goals cases h
  · exact hb
  · exact ha
  · exact hb

/-- The common type of several operands is reached, by induction on them. -/
theorem within_unifyAll {operands : List Operand} {common : Option Operand}
    (hcommon : ∀ a, common = some a → Within r context named a.type)
    (hoperands : ∀ a ∈ operands, Within r context named a.type)
    (h : r.unifyAll position common operands = .ok (some c)) : Within r context named c.type := by
  induction operands generalizing common with
  | nil =>
    cases common <;> cases h
    exact hcommon c rfl
  | cons a operands ih =>
    have ha := hoperands a List.mem_cons_self
    have hrest := fun b hb => hoperands b (List.mem_cons_of_mem a hb)
    -- The first operand is the common one so far; a later one is unified with it.
    cases common with
    | none =>
      apply ih _ hrest h
      intro b hb
      cases hb
      exact ha
    | some b =>
      rw [unifyAll] at h
      split at h
      · cases h
      · rename_i unified hunified
        apply ih _ hrest h
        intro d hd
        cases hd
        exact within_unify (hcommon b rfl) ha hunified

/-- What is constructed is of the type that is named. -/
theorem within_construct {arguments : List Operand} (ht : Within r context named t)
    (h : r.construct t arguments position = .ok c) : Within r context named c.type := by
  unfold construct at h
  dsimp only at h
  repeat' split at h
  all_goals cases h
  all_goals exact ht

/-- **What an operator makes** is of the type of an operand or of a predefined one. -/
theorem within_operate {operator : Operator} {token : Token} (ha : Within r context named a.type)
    (h : r.operate operator token a b = .ok c) : Within r context named c.type := by
  unfold operate at h
  split at h
  · rename_i result hresult
    cases h
    -- Most results are predefined types that are given by their names.
    have hmap : ∀ {name? : Option String}, name?.map Operand.predefined = some c →
        Within r context named c.type := by
      intro name? h
      obtain ⟨name, -, rfl⟩ := Option.map_eq_some_iff.1 h
      exact within_predefinedValue name
    -- Every entry of the tables gives such a type, or that of the left operand.
    cases operator <;>
      simp only [operation?, bitwise?, shift?, arithmetic?] at hresult <;>
      (repeat' split at hresult) <;>
      first
        | exact hmap hresult
        | (cases hresult; exact ha)
        | (cases hresult; exact within_predefinedValue _)
        | cases hresult
  · cases h

/-- A prefix operator makes a predefined type. -/
theorem within_operateUnary {token : Token} (h : operateUnary token a = .ok c) :
    Within r context named c.type := by
  unfold operateUnary at h
  dsimp only at h
  split at h
  · cases h
    exact within_predefinedValue _
  · cases h

/-! ## §5. What operators of sequences make. -/

/-- A sum or an average is of a predefined type. -/
theorem within_total {isAverage : Bool} (ha : Within r context named a.type)
    (h : SequenceOperator.total isAverage a position = .ok c) : Within r context named c.type := by
  unfold SequenceOperator.total at h
  dsimp only at h
  split at h
  · cases h
  · split at h <;> cases h
    · exact within_predefinedValue _
    · exact ha

/-- **What an operator makes of a sequence** is an element, a value of its body, another sequence of
these, or predefined. -/
theorem within_result {o : SequenceOperator} {element : TypeDef} {arguments : List Operand}
    (helement : Within r context named element)
    (harguments : ∀ a ∈ arguments, Within r context named a.type)
    (h : o.result r name element position arguments = .ok c) : Within r context named c.type := by
  -- Where the arguments are only checked, the result is known beforehand.
  have hchecked : ∀ {e : Except Fault Unit} {d : Operand}, Within r context named d.type →
      (e.map fun _ => d) = .ok c → Within r context named c.type := by
    intro e d hd h
    cases e <;> cases h
    exact hd
  have hvalue : Within r context named (Operand.value element).type := helement
  have hsequence : Within r context named (SequenceOperator.sequence element).type := helement.array
  -- One case for each operator, by what it makes.
  unfold SequenceOperator.result at h
  split at h <;>
    first
      | exact hchecked (within_predefinedValue _) h
      | exact hchecked hsequence h
      | exact hchecked hvalue h
      | exact within_total hvalue h
      | exact within_total (harguments _ List.mem_cons_self) h
      | (cases h; exact within_predefinedValue _)
      | (cases h; exact hvalue)
      | (cases h; exact hsequence)
      | (cases h; have hargument := harguments _ List.mem_cons_self; exact hargument)
      | (cases h; have hargument := harguments _ List.mem_cons_self; exact hargument.array)
      | cases h

end Registry

end TypeAhead
