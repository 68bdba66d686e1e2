/-
  TypeAhead.Proofs.Types.Assignable — WHEN CONVERSIONS COMPOSE AND MEMBERS ARE INHERITED.

  A value of a type is a value of every type along whose chain members are looked
  up, and so the members of these are members of the type.  If the bases of all
  interfaces were inherited from as well, the chain would hold all types that are
  declared as bases or interfaces on the way, and conversions would compose.  That
  condition is exactly what it takes.

      Covers                       no base of an interface is left out
      isAssignable_iff             conversions follow the chain of lookup
      lookupChain_eq_declared_iff  when the chain holds all that is declared
      findsMember_of_mem           members of a type of the chain are found
-/
import TypeAhead.Proofs.Types.Ancestry
import TypeAhead.Proofs.Types.Finding
import TypeAhead.Proofs.Types.History

namespace TypeAhead.Registry

open Relation

variable {r : Registry} {t u : TypeDef} {name : String}

/-! ## §1. All that is declared. -/

/-- The type inherits from the bases of all that it inherits from; only those of interfaces can be
left out. -/
def Covers (r : Registry) (t : TypeDef) : Prop :=
  ∀ u b, r.InheritsFrom t u → r.HasBase u b → r.InheritsFrom t b ∨ b = Predefined.objectType

/-- Then it inherits from all that is declared on the way. -/
theorem Covers.inheritsFrom (h : r.Covers t) (hu : ReflTransGen r.Declares t u) :
    r.InheritsFrom t u ∨ u = Predefined.objectType := by
  induction hu with
  | refl => exact .inl (inheritsFrom_refl r t)
  | tail _ hstep ih =>
    rcases ih with ih | rfl
    · cases hstep with
      | base hname hget => exact h _ _ ih (hasBase_of_declared hname hget)
      | interface himplements => exact .inl (ih.implements himplements)
    · exact absurd hstep not_declares_object

/-- And if it does, no base is left out. -/
theorem covers_of_inheritsFrom
    (h : ∀ u, ReflTransGen r.Declares t u → r.InheritsFrom t u ∨ u = Predefined.objectType) :
    r.Covers t := by
  intro u b hu hbase
  rcases hbase.declares_or with hstep | hroot
  · rcases hu.declared with hu | rfl
    · exact h b (hu.tail hstep)
    · exact absurd hstep not_declares_object
  · exact .inr hroot

/-- **The chain of lookup holds all that is declared exactly if no base is left out.** -/
theorem lookupChain_eq_declared_iff (hr : r.Built) (ht : r.Admits t) (hfew : r.ReachesFew t)
    (hnames : r.NamesFew t) :
    (∀ u, u ∈ r.lookupChain t ↔ ReflTransGen r.Declares t u ∨ u = Predefined.objectType) ↔
      r.Covers t := by
  have hchain := fun u => mem_lookupChain_iff (u := u) hr ht hfew hnames
  constructor
  · intro h
    apply covers_of_inheritsFrom
    intro u hu
    exact (hchain u).1 ((h u).2 (.inl hu))
  · intro h u
    rw [hchain]
    constructor
    · rintro (hu | hroot)
      · exact hu.declared
      · exact .inr hroot
    · rintro (hu | hroot)
      · exact h.inheritsFrom hu
      · exact .inr hroot

/-! ## §2. Conversions. -/

theorem isAssignable_refl (r : Registry) (t : TypeDef) : r.isAssignable t t = true := by
  unfold isAssignable
  rw [t.same_refl]
  rfl

/-- **Conversions follow the chain of lookup.** -/
theorem isAssignable_iff (hr : r.Built) (ht : r.Admits t) (hu : r.Knows u) :
    r.isAssignable t u = true ↔ u ∈ r.lookupChain t := by
  have hchain : ∀ v ∈ r.lookupChain t, r.KnowsWith t v :=
    (inherited_knowsWith t).lookupChain (fun _ h => .inr (knows_of_get? h)) (.inl rfl)
  have hamong := hr.isAmong_iff ht (.inr hu) hchain
  unfold isAssignable
  rw [Bool.or_eq_true, Bool.or_eq_true, beq_iff_eq, hamong]
  constructor
  · rintro ((h | h) | h)
    · rw [← hr.eq_of_same ht (.inl rfl) (.inr hu) h]
      exact (mem_lookupChain hr ht).2 (.inl (mem_baseChain r t))
    · have hroot := hr.get?_fullName hu
      rw [h, get?_object] at hroot
      cases hroot
      exact (mem_lookupChain hr ht).2 (.inr (.inr rfl))
    · exact h
  · exact .inr

/-- **Conversions compose exactly if no base is left out**, where hierarchies are of moderate size. -/
theorem isAssignable_trans_iff (hr : r.Built) (hfew : ∀ t, r.Knows t → r.ReachesFew t ∧ r.NamesFew t) :
    (∀ a b c, r.Knows a → r.Knows b → r.Knows c → r.isAssignable a b = true →
        r.isAssignable b c = true → r.isAssignable a c = true) ↔ ∀ t, r.Knows t → r.Covers t := by
  -- Assignable is what is inherited from, and `System.Object`.
  have hassignable : ∀ {a b : TypeDef}, r.Knows a → r.Knows b → (r.isAssignable a b = true ↔
      r.InheritsFrom a b ∨ b = Predefined.objectType) := by
    intro a b ha hb
    rw [isAssignable_iff hr (hr.admits ha) hb,
      mem_lookupChain_iff hr (hr.admits ha) (hfew a ha).1 (hfew a ha).2]
  constructor
  · intro htrans t ht u b hu hbase
    have hknown : r.Knows u := by
      rcases hu.knowsWith with rfl | h
      · exact ht
      · exact h
    -- The type in the middle inherits from its own base, so that transitivity gives the rest.
    have hstep : r.InheritsFrom u b := ⟨b, .single hbase, .refl⟩
    rw [← hassignable ht hbase.knows]
    exact htrans t u b ht hknown hbase.knows ((hassignable ht hknown).2 (.inl hu))
      ((hassignable hknown hbase.knows).2 (.inl hstep))
  · intro hcovers a b c ha hb hc hab hbc
    rw [hassignable ha hb] at hab
    rw [hassignable hb hc] at hbc
    rw [hassignable ha hc]
    rcases hbc with hbc | hroot
    -- Declared in two steps is declared, which is covered by assumption.
    · rcases hbc.declared with hbc | hroot
      · rcases hab with hab | rfl
        · rcases hab.declared with hab | rfl
          · exact (hcovers a ha).inheritsFrom (hab.trans hbc)
          · exact .inr (eq_object_of_declared hbc)
        · exact .inr (eq_object_of_declared hbc)
      · exact .inr hroot
    · exact .inr hroot

/-! ## §3. Members. -/

/-- The member is found by its name, unless one that comes before it has the name. -/
def FindsMember (r : Registry) (t : TypeDef) (m : FoundMember) : Prop :=
  ∃ near far, (r.lookupChain t).flatMap (·.reached .ofInstance) = near ++ m :: far ∧
    ∀ ignoreCase, (∀ g ∈ near, Text.sameName ignoreCase g.name m.name = false) →
      r.findMember? t m.name .ofInstance ignoreCase = some m

/-- The method is found by its name, unless one that comes before it has the name and the types of
parameters. -/
def FindsMethod (r : Registry) (t : TypeDef) (m : Method) : Prop :=
  ∃ near far, (r.lookupChain t).flatMap TypeDef.methods = near ++ m :: far ∧
    ∀ ignoreCase, (∀ g ∈ near, g.isStatic = false → Text.sameName ignoreCase g.name m.name = true →
        g.sameParameters m = false) →
      m ∈ r.findMethods t m.name .ofInstance ignoreCase

/-- **Members of the types of the chain are found.** -/
theorem findsMember_of_mem (hu : u ∈ r.lookupChain t) {m : FoundMember}
    (hm : m ∈ u.reached .ofInstance) : r.FindsMember t m := by
  have hmem : m ∈ (r.lookupChain t).flatMap (·.reached .ofInstance) := List.mem_flatMap.2 ⟨u, hu, hm⟩
  obtain ⟨near, far, heq⟩ := List.append_of_mem hmem
  refine ⟨near, far, heq, ?_⟩
  intro ignoreCase hnear
  have hnone : near.find? (fun g => Text.sameName ignoreCase g.name m.name) = none := by
    rw [List.find?_eq_none]
    intro g hg
    rw [hnear g hg]
    exact Bool.false_ne_true
  have hfirst : (m :: far).find? (fun g => Text.sameName ignoreCase g.name m.name) = some m :=
    List.find?_cons_of_pos (Text.sameName_refl ignoreCase m.name)
  rw [findMember?_eq_find?, heq, List.find?_append, hnone, Option.none_or, hfirst]

/-- **So are methods.** -/
theorem findsMethod_of_mem (hu : u ∈ r.lookupChain t) {m : Method} (hm : m ∈ u.methods)
    (hstatic : m.isStatic = false) : r.FindsMethod t m := by
  -- The methods that are looked at before it, and those after it.
  obtain ⟨near, far, heq⟩ := List.append_of_mem (List.mem_flatMap.2 ⟨u, hu, hm⟩)
  refine ⟨near, far, heq, ?_⟩
  intro ignoreCase hnear
  have hadmits : (Binding.ofInstance.admits m.isStatic && Text.sameName ignoreCase m.name m.name) =
      true := by
    rw [hstatic, Text.sameName_refl]
    rfl
  unfold findMethods TypeDef.methodsOf
  rw [← List.filter_flatMap, heq, List.filter_append, List.filter_cons, if_pos hadmits]
  -- It is added unless one before it has the same parameters, which is excluded.
  apply Method.mem_foldl_addNew
  intro g hg
  obtain ⟨hg, hname⟩ := List.mem_filter.1 hg
  rw [Bool.and_eq_true] at hname
  have hown : g.isStatic = false := by
    have hown := hname.1
    unfold Binding.admits at hown
    simpa using hown
  exact hnear g hg hown hname.2

/-! ## §4. The hierarchy of a type. -/

/-- **The hierarchy of a type.**  In every registry, where few types are come to and few names stand for
interfaces, members are looked for in exactly what the type inherits from, and in the root; these are all
types that are declared on the way exactly if no base of an interface is left out, and where that is so of
all types, and only there, conversions compose.  Each type converts to itself, and whatever it converts
to, its members are found unless a nearer one hides them. -/
theorem hierarchy_closed_iff (hr : r.Built) :
    (∀ t, r.Admits t → r.ReachesFew t → r.NamesFew t →
      (∀ u, u ∈ r.lookupChain t ↔ r.InheritsFrom t u ∨ u = Predefined.objectType) ∧
      ((∀ u, u ∈ r.lookupChain t ↔
          ReflTransGen r.Declares t u ∨ u = Predefined.objectType) ↔ r.Covers t)) ∧
    ((∀ t, r.Knows t → r.ReachesFew t ∧ r.NamesFew t) →
      ((∀ a b c, r.Knows a → r.Knows b → r.Knows c → r.isAssignable a b = true →
          r.isAssignable b c = true → r.isAssignable a c = true) ↔ ∀ t, r.Knows t → r.Covers t)) ∧
    (∀ t, r.isAssignable t t = true) ∧
    ∀ t u, r.Admits t → r.Knows u → r.isAssignable t u = true →
      (∀ m ∈ u.reached .ofInstance, r.FindsMember t m) ∧
      ∀ m ∈ u.methods, m.isStatic = false → r.FindsMethod t m := by
  refine ⟨?_, isAssignable_trans_iff hr, isAssignable_refl r, ?_⟩
  · intro t ht hfew hnames
    exact ⟨fun u => mem_lookupChain_iff hr ht hfew hnames,
      lookupChain_eq_declared_iff hr ht hfew hnames⟩
  · intro t u ht hu h
    have hchain := (isAssignable_iff hr ht hu).1 h
    exact ⟨fun m hm => findsMember_of_mem hchain hm,
      fun m hm hstatic => findsMethod_of_mem hchain hm hstatic⟩

/-- Where types name few bases and interfaces altogether, all hierarchies are of moderate size. -/
theorem few_of_names {names : List String} (hfew : names.length < Limits.hierarchy)
    (hnames : ∀ t, r.Knows t → ∀ name ∈ t.base.toList ++ t.interfaces, name ∈ names) (ht : r.Knows t) :
    r.ReachesFew t ∧ r.NamesFew t := by
  constructor
  -- Each type that is declared is what one of the names means.
  · refine ⟨names.filterMap r.get?, ?_, ?_⟩
    · exact Nat.lt_of_le_of_lt (List.length_filterMap_le _ _) hfew
    · intro u hu
      rw [List.mem_filterMap]
      have hknown : ∀ {v : TypeDef}, ReflTransGen r.Declares t v → r.Knows v := by
        intro v hv
        rcases hv.cases_tail with rfl | ⟨w, -, hw⟩
        · exact ht
        · exact hw.knows
      obtain ⟨v, hv, hstep⟩ := TransGen.tail'_iff.1 hu
      cases hstep with
      | base hname hget =>
        refine ⟨_, hnames v (hknown hv) _ (List.mem_append_left _ ?_), hget⟩
        rw [hname]
        exact List.mem_cons_self
      | interface himplements =>
        obtain ⟨name, hname, hget⟩ := himplements
        exact ⟨name, hnames v (hknown hv) name (List.mem_append_right _ hname), hget⟩
  · refine ⟨names, Nat.le_of_lt hfew, ?_⟩
    intro u hu name hname _
    apply hnames u _ name (List.mem_append_right _ hname)
    rcases hu.knowsWith with rfl | hu
    · exact ht
    · exact hu

/-- What has an identity. -/
def entity : TypeDef :=
  { name := "IEntity", space := "Shop", kind := .interface, properties := [⟨"Id", Known.int32, false⟩] }

/-- What has a price has an identity. -/
def priced : TypeDef := { name := "IPriced", space := "Shop", kind := .interface, base := some "Shop.IEntity" }

/-- Goods have prices. -/
def product : TypeDef := { name := "Product", space := "Shop", interfaces := ["Shop.IPriced"] }

/-- A shop: its goods have prices, and what has a price has an identity. -/
def shop : Registry := .performAll .empty [.register entity, .register priced, .register product]

theorem custom_shop : shop.custom = [entity, priced, product] := by decide +kernel

/-- What goods inherit from has a base that they do not inherit from. -/
theorem hierarchy_closed_iff_of_shop :
    shop.Built ∧ (∀ t, shop.Knows t → shop.ReachesFew t ∧ shop.NamesFew t) ∧
      ¬ ∀ t, shop.Knows t → shop.Covers t := by
  have hbuilt : shop.Built := Built.empty.performAll
  -- Only types that are registered declare anything.
  have hnames : ∀ t, shop.Knows t → ∀ name ∈ t.base.toList ++ t.interfaces,
      name ∈ ["Shop.IEntity", "Shop.IPriced"] := by
    rintro t ⟨element, rank, helement, rfl⟩ name hname
    cases rank with
    | zero =>
      have hpredefined : ∀ t ∈ predefined, t.base.toList ++ t.interfaces = [] := by decide +kernel
      have hcustom : ∀ t ∈ shop.custom, ∀ name ∈ t.base.toList ++ t.interfaces,
          name ∈ ["Shop.IEntity", "Shop.IPriced"] := by
        rw [custom_shop]
        decide
      rcases helement with helement | helement
      · have hnone : name ∈ element.base.toList ++ element.interfaces := hname
        rw [hpredefined element helement] at hnone
        cases hnone
      · exact hcustom element helement name hname
    | succ rank => cases hname
  have hfew : ∀ t, shop.Knows t → shop.ReachesFew t ∧ shop.NamesFew t :=
    fun t ht => few_of_names (by decide) hnames ht
  refine ⟨hbuilt, hfew, ?_⟩
  intro hcovers
  have htrans := ((hierarchy_closed_iff hbuilt).2.1 hfew).2 hcovers
  have hknown : ∀ t ∈ shop.custom, shop.Knows t := fun t ht => ⟨t, 0, .inr ht, rfl⟩
  -- If all were covered, a product would be an entity by way of what is priced.
  have hstep : shop.isAssignable product entity = true :=
    htrans _ priced _ (hknown _ (by simp [custom_shop])) (hknown _ (by simp [custom_shop]))
      (hknown _ (by simp [custom_shop]))
      (by decide +kernel) (by decide +kernel)
  have hnone : shop.isAssignable product entity = false := by decide +kernel
  cases hnone.symm.trans hstep

end TypeAhead.Registry
