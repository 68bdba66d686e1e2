/-
  TypeAhead.Proofs.Typing.Unresolved — WHICH NAMES OF TYPES MEAN NOTHING.

  In the registry of a model every type that its types mention is there.  Typing
  makes two sorts of types besides: arrays, of which the names mean something
  wherever those of their elements do, and the types of `new (…)`, which no
  registry has.  So a type is not found only where the text names it itself, or
  where it is of the second sort: such a type is known while it is the type of an
  operand, and lost when it becomes the type of a member or of an element.

      mentions_of_within     what the types that are reached mention
      typeNotFound_named     which types a text does not find
-/
import TypeAhead.Proofs.Typing.Confinement

namespace TypeAhead

namespace Registry

variable {r : Registry} {context t : TypeDef} {named : TypeDef → Prop} {name : String}

/-! ## §1. What the types that are reached mention. -/

/-- The type is one that `new (…)` makes of operands over types that are reached, or an array of such
a type. -/
def IsMade (r : Registry) (context : TypeDef) (named : TypeDef → Prop) (t : TypeDef) : Prop :=
  ∃ members rank, (∀ m ∈ members, r.Within context named (Prod.snd m).type) ∧
    t = (Typing.Rule.anonymous members).arrayOfRank rank

/-- The name means a type, or it is that of a type that is made. -/
def Means (r : Registry) (context : TypeDef) (named : TypeDef → Prop) (name : String) : Prop :=
  (r.get? name).isSome = true ∨ ∃ t, r.IsMade context named t ∧ name = t.fullName

/-- A type that is made mentions the types of its members. -/
theorem mentions_anonymous {members : List (String × Operand)}
    (h : name ∈ (Typing.Rule.anonymous members).mentions) :
    ∃ m ∈ members, name = m.2.type.fullName := by
  have hmentions : (Typing.Rule.anonymous members).mentions =
      (members.map fun m => (⟨m.1, m.2.typeName, false⟩ : DataMember)).map DataMember.type := by
    unfold Typing.Rule.anonymous TypeDef.mentions
    simp
  rw [hmentions] at h
  obtain ⟨property, hproperty, rfl⟩ := List.mem_map.1 h
  obtain ⟨m, hm, rfl⟩ := List.mem_map.1 hproperty
  exact ⟨m, hm, rfl⟩

section

variable (hr : r.WellFormed) (hcontext : r.Knows context) (hnamed : ∀ t, named t → r.Knows t)

include hr hcontext hnamed

/-- **A type that is reached is one of the registry, or it is made.** -/
theorem knows_or_isMade (h : r.Within context named t) : r.Knows t ∨ r.IsMade context named t := by
  induction h with
  | @accessible t h =>
    left
    rcases List.mem_append.1 h with h | h
    · rcases List.mem_append.1 h with h | h
      · exact knows_predefined h
      · exact hr.exposed t h
    · exact inherited_knows.hierarchy hcontext t h
  | named h => exact .inl (hnamed _ h)
  | base _ hu => exact .inl (knows_of_baseType? hu)
  | interface _ _ hu => exact .inl (knows_of_get? hu)
  | member _ _ hu => exact .inl (knows_of_get? hu)
  | element _ _ hu => exact .inl (knows_of_get? hu)
  | array _ ih =>
    rcases ih with ⟨element, rank, helement, rfl⟩ | ⟨members, rank, hmembers, rfl⟩
    · exact .inl ⟨element, rank + 1, helement, rfl⟩
    · exact .inr ⟨members, rank + 1, hmembers, rfl⟩
  | @anonymous members h => exact .inr ⟨members, 0, h, rfl⟩

theorem means_fullName (h : r.Within context named t) : r.Means context named t.fullName := by
  rcases knows_or_isMade hr hcontext hnamed h with h | h
  · exact .inl (hr.isSome_get?_fullName h)
  · exact .inr ⟨t, h, rfl⟩

/-- **What a type that is reached mentions** means a type, or is made. -/
theorem mentions_of_within (h : r.Within context named t) (hname : name ∈ t.mentions) :
    r.Means context named name := by
  rcases knows_or_isMade hr hcontext hnamed h with h | ⟨members, rank, hmembers, rfl⟩
  · exact .inl (hr.mentions h hname)
  · cases rank with
    | zero =>
      obtain ⟨m, hm, rfl⟩ := mentions_anonymous hname
      exact means_fullName hr hcontext hnamed (hmembers m hm)
    | succ rank =>
      rcases mentions_array hname with rfl | hname
      · exact .inr ⟨_, ⟨members, rank, hmembers, rfl⟩, rfl⟩
      · exact .inl (isSome_get?_mention hname)

end

end Registry

/-! ## §2. Types that are not found. -/

namespace Typing

variable {s : Setting} {text : String} {m : TypeModel} {loaded : LoadedModel}

theorem knows_of_named {t : TypeDef} (h : s.Named text.toList t) : s.registry.Knows t := by
  obtain ⟨name, -, hget⟩ := h
  exact Registry.knows_of_get? hget

/-- **Which types are not found.**  With the registry of a model and a context that it knows, whatever
a type that is reached mentions means a type, save for the types that `new (…)` makes.  So if a type
is not found, then its name is written after `new` or in a literal before a parenthesis, or it is one
that is made, or an array of such a type. -/
theorem typeNotFound_named (hload : m.load = .ok loaded) (hregistry : s.registry = loaded.registry)
    (hcontext : s.registry.Knows s.context) :
    (∀ t, s.registry.Within s.context (s.Named text.toList) t → ∀ name ∈ t.mentions,
      s.registry.Means s.context (s.Named text.toList) name) ∧
    ∀ name position, s.compile text = .error (.fault ⟨.typeNotFound name, position⟩) →
      Writes s.parsing.dialect text.toList name ∨
        (s.registry.get? name = none ∧
          ∃ t, s.registry.IsMade s.context (s.Named text.toList) t ∧ name = t.fullName) := by
  have hr : s.registry.WellFormed := by
    rw [hregistry]
    exact (TypeModel.wellFormed_of_load hload).1
  have hnamed : ∀ t, s.Named text.toList t → s.registry.Knows t := fun _ => knows_of_named
  constructor
  · intro t ht name hname
    exact Registry.mentions_of_within hr hcontext hnamed ht hname
  · intro name position h
    -- A fault of this cause names something that is written, or a type that a member mentions.
    have hcases := compile_cases s text
    rw [h] at hcases
    rcases hcases with hwrites | ⟨hget, owner, howner, hmember⟩
    · exact .inl hwrites
    · right
      refine ⟨hget, ?_⟩
      have hmeans := Registry.mentions_of_within hr hcontext hnamed howner
        (Registry.mentions_of_memberTypes hmember)
      rcases hmeans with hsome | hmade
      · rw [hget] at hsome
        cases hsome
      · exact hmade

/-- The type of a member that `new (…)` makes is not found. -/
theorem typeNotFound_named_of_member :
    let s : Setting := ⟨.empty, {}, Predefined.objectType⟩
    s.compile "new (new (1 as a) as b).b" =
        .error (.fault ⟨.typeNotFound "<>f__AnonymousType(a:System.Int32)", 24⟩) ∧
      (Writes s.parsing.dialect "new (new (1 as a) as b).b".toList "<>f__AnonymousType(a:System.Int32)" ∨
        (s.registry.get? "<>f__AnonymousType(a:System.Int32)" = none ∧
          ∃ t, s.registry.IsMade s.context (s.Named "new (new (1 as a) as b).b".toList) t ∧
            "<>f__AnonymousType(a:System.Int32)" = t.fullName)) := by
  intro s
  have h : s.compile "new (new (1 as a) as b).b" =
      .error (.fault ⟨.typeNotFound "<>f__AnonymousType(a:System.Int32)", 24⟩) := rfl
  have hload : TypeModel.load {} = .ok ⟨.empty, none⟩ := rfl
  have hcontext : s.registry.Knows s.context := Registry.knows_predefined (by decide)
  exact ⟨h, (typeNotFound_named hload rfl hcontext).2 _ _ h⟩

end Typing

end TypeAhead
