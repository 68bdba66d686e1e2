/-
  TypeAhead.Proofs.Types.Equivalent — REGISTRIES IN WHICH NAMES MEAN THE SAME.

  A registry is asked what a name means and which types are exposed.  All other
  questions, about bases, interfaces, members and what an expression may name, come
  down to these two, so two registries that agree on them give the same answers.  That
  is how registries differ in which the same types were registered in another order: a
  full name is that of one type, and it does not matter where in the list it stands.

      Equivalent.lookupChain    where members are looked for
      Equivalent.findAccessible?, isNamespace   what an expression may name
      registerAll_succeeds_iff  which types can be registered together
      load_perm                 models that list their types in another order
-/
import TypeAhead.Proofs.Types.History
import TypeAhead.Types.Member

namespace TypeAhead

namespace Registry

/-- Every name means the same in the two registries, and the same types are exposed. -/
structure Equivalent (r r' : Registry) : Prop where
  get : r.get? = r'.get?
  exposed : r.exposed = r'.exposed

namespace Equivalent

variable {r r' : Registry}

/-! ## §1. Bases and interfaces. -/

/-- Both registries find the same base for every type. -/
theorem baseType? (h : r.Equivalent r') : r.baseType? = r'.baseType? := by
  funext t
  simp only [Registry.baseType?, h.get]

/-- Both registries extend a chain of bases alike, by induction on the budget. -/
theorem extendChain (h : r.Equivalent r') (chain : List TypeDef) (t : TypeDef) (budget : Nat) :
    r.extendChain chain t budget = r'.extendChain chain t budget := by
  induction budget generalizing chain t with
  | zero => rfl
  | succ budget ih => simp only [Registry.extendChain, h.baseType?, ih]

theorem baseChain (h : r.Equivalent r') : r.baseChain = r'.baseChain := by
  funext t
  exact h.extendChain [t] t _

/-- Both registries visit the same type under a name. -/
theorem visit (h : r.Equivalent r') : Search.visit r = Search.visit r' := by
  funext s name
  simp only [Search.visit, h.get]

/-- Both registries search for interfaces alike, by induction on the budget. -/
theorem search (h : r.Equivalent r') (s : Search) (budget : Nat) : s.run r budget = s.run r' budget := by
  induction budget generalizing s with
  | zero => rfl
  | succ budget ih => simp only [Search.run, h.visit, ih]

theorem interfaces (h : r.Equivalent r') : r.interfaces = r'.interfaces := by
  funext t
  simp only [Registry.interfaces, h.baseChain, h.search]

theorem hierarchy (h : r.Equivalent r') : r.hierarchy = r'.hierarchy := by
  funext t
  simp only [Registry.hierarchy, h.interfaces, h.baseChain]

/-- **Members are looked for in the same types**, in the same order. -/
theorem lookupChain (h : r.Equivalent r') : r.lookupChain = r'.lookupChain := by
  funext t
  simp only [Registry.lookupChain, h.interfaces, h.baseChain, h.get]

theorem elementType? (h : r.Equivalent r') : r.elementType? = r'.elementType? := by
  funext t
  simp only [Registry.elementType?, h.lookupChain, h.get]

/-- Both registries let the same types be assigned. -/
theorem isAssignable (h : r.Equivalent r') : r.isAssignable = r'.isAssignable := by
  funext source target
  simp only [Registry.isAssignable, h.lookupChain]

/-! ## §2. What an expression may name. -/

/-- Both registries let the same names be used. -/
theorem accessible (h : r.Equivalent r') : r.accessible = r'.accessible := by
  funext context
  simp only [Registry.accessible, h.exposed, h.hierarchy]

theorem findAccessible? (h : r.Equivalent r') : r.findAccessible? = r'.findAccessible? := by
  funext name context
  simp only [Registry.findAccessible?, h.accessible]

theorem isNamespace (h : r.Equivalent r') : r.isNamespace = r'.isNamespace := by
  funext start context
  simp only [Registry.isNamespace, h.accessible]

/-! ## §3. Members. -/

/-- Both registries find the same member. -/
theorem findMember? (h : r.Equivalent r') : r.findMember? = r'.findMember? := by
  funext t name binding ignoreCase
  simp only [Registry.findMember?, h.lookupChain]

theorem findMethods (h : r.Equivalent r') : r.findMethods = r'.findMethods := by
  funext t name binding ignoreCase
  simp only [Registry.findMethods, h.lookupChain]

theorem findIndexers (h : r.Equivalent r') : r.findIndexers = r'.findIndexers := by
  funext t
  simp only [Registry.findIndexers, h.lookupChain]

theorem memberNames (h : r.Equivalent r') : r.memberNames = r'.memberNames := by
  funext t binding inherited
  simp only [Registry.memberNames, h.lookupChain]

end Equivalent

/-! ## §4. Types in another order. -/

variable {r r' : Registry} {types types' : List TypeDef} {t : TypeDef} {name : String}

/-- Types that can be registered together: none has the name of an array or a name that is taken, and no
two have the same name. -/
structure Registrable (r : Registry) (types : List TypeDef) : Prop where
  plain : ∀ t ∈ types, (arrayRank t.fullName.toList.reverse).1 = 0
  fresh : ∀ t ∈ types, r.ofFullName? t.fullName = none
  distinct : (types.map TypeDef.fullName).Nodup

/-- The order is no part of this. -/
theorem Registrable.perm (h : r.Registrable types) (hperm : types.Perm types') : r.Registrable types' where
  plain t ht := h.plain t (hperm.mem_iff.2 ht)
  fresh t ht := h.fresh t (hperm.mem_iff.2 ht)
  distinct := (hperm.map TypeDef.fullName).nodup_iff.1 h.distinct

/-- A name is still free when a type of another name is registered. -/
theorem ofFullName?_add_eq_none_iff (hnew : r.ofFullName? t.fullName = none) :
    (r.add t hnew).ofFullName? name = none ↔ r.ofFullName? name = none ∧ t.fullName ≠ name := by
  rw [ofFullName?_add]
  by_cases hname : name = t.fullName
  · simp [hname]
  · simp [hname, Ne.symm hname]

/-- After the first type the others can be registered if all could be. -/
theorem registrable_cons (hnew : r.ofFullName? t.fullName = none) : r.Registrable (t :: types) ↔
    (arrayRank t.fullName.toList.reverse).1 = 0 ∧ (r.add t hnew).Registrable types := by
  constructor
  · intro h
    have hdistinct := List.nodup_cons.1 h.distinct
    refine ⟨h.plain t List.mem_cons_self, fun u hu => h.plain u (List.mem_cons_of_mem t hu), ?_, hdistinct.2⟩
    intro u hu
    rw [ofFullName?_add_eq_none_iff]
    refine ⟨h.fresh u (List.mem_cons_of_mem t hu), ?_⟩
    intro heq
    exact hdistinct.1 (heq ▸ List.mem_map_of_mem hu)
  · rintro ⟨hplain, h⟩
    have hfresh := fun u hu => (ofFullName?_add_eq_none_iff hnew).1 (h.fresh u hu)
    refine ⟨List.forall_mem_cons.2 ⟨hplain, h.plain⟩, ?_, ?_⟩
    · exact List.forall_mem_cons.2 ⟨hnew, fun u hu => (hfresh u hu).1⟩
    · refine List.nodup_cons.2 ⟨?_, h.distinct⟩
      intro hmem
      obtain ⟨u, hu, heq⟩ := List.mem_map.1 hmem
      exact (hfresh u hu).2 heq.symm

/-- **Which types can be registered together.** -/
theorem registerAll_succeeds_iff : (∃ r', TypeModel.registerAll r types = .ok r') ↔ r.Registrable types := by
  induction types generalizing r with
  | nil => exact ⟨fun _ => ⟨List.forall_mem_nil _, List.forall_mem_nil _, List.nodup_nil⟩, fun _ => ⟨r, rfl⟩⟩
  | cons t types ih =>
    rw [TypeModel.registerAll]
    cases hregister : r.register t with
    | ok registered =>
      obtain ⟨hnew, hplain, rfl⟩ := register_eq_ok_iff.1 hregister
      exact ih.trans ⟨fun h => (registrable_cons hnew).2 ⟨hplain, h⟩, fun h => ((registrable_cons hnew).1 h).2⟩
    | error fault =>
      constructor
      · rintro ⟨r', h⟩
        cases h
      intro h
      -- The first type alone could be registered.
      have hfirst := register_eq_ok_iff.2
        ⟨h.fresh t List.mem_cons_self, h.plain t List.mem_cons_self, rfl⟩
      cases hregister.symm.trans hfirst

/-- They stand at the end of the custom types, in their order. -/
theorem custom_of_registerAll (h : TypeModel.registerAll r types = .ok r') :
    r'.custom = r.custom ++ types ∧ r'.exposed = r.exposed := by
  induction types generalizing r with
  | nil =>
    cases h
    exact ⟨(List.append_nil _).symm, rfl⟩
  | cons t types ih =>
    rw [TypeModel.registerAll] at h
    split at h
    · cases h
    · rename_i hregister
      obtain ⟨hnew, -, rfl⟩ := register_eq_ok_iff.1 hregister
      obtain ⟨hcustom, hexposed⟩ := ih h
      exact ⟨hcustom.trans (List.append_cons r.custom t types).symm, hexposed⟩

/-- What a full name means, where full names are distinct. -/
theorem Distinct.ofFullName?_eq_some_iff (hr : r.Distinct) : r.ofFullName? name = some t ↔
    predefinedNamed.lookup name = some t ∨ t ∈ r.custom ∧ t.fullName = name := by
  constructor
  · intro h
    rw [ofFullName?_eq_or, Option.or_eq_some_iff] at h
    rcases h with hlookup | ⟨-, hfind⟩
    · exact .inl hlookup
    · exact .inr ⟨List.mem_of_find?_eq_some hfind, by simpa using List.find?_some hfind⟩
  · rintro (h | ⟨ht, rfl⟩)
    · rw [ofFullName?_eq_or, h]
      rfl
    · exact hr.unique t ht

/-- **The order of custom types does not change what names mean.** -/
theorem Distinct.equivalent (hr : r.Distinct) (hr' : r'.Distinct) (hcustom : r.custom.Perm r'.custom)
    (hexposed : r.exposed = r'.exposed) : r.Equivalent r' := by
  have hfull : r.ofFullName? = r'.ofFullName? := by
    funext name
    ext t
    rw [hr.ofFullName?_eq_some_iff, hr'.ofFullName?_eq_some_iff, hcustom.mem_iff]
  have hname : r.ofName? = r'.ofName? := by
    funext name
    simp only [Catalog.ofName?, hfull]
  refine ⟨?_, hexposed⟩
  funext name
  simp only [Catalog.get?, hname]

/-! ## §5. Models. -/

/-- A registry is valid if everything that its types mention means something. -/
theorem validate_eq_ok_iff : r.validate = .ok () ↔
    ∀ t ∈ r.custom, ∀ name ∈ t.mentions, (r.get? name).isSome = true := by
  refine ⟨resolved_of_validate, ?_⟩
  intro h
  have hnone : (r.custom.findSome? fun t => (r.dangling? t).map (t.fullName, ·)) = none := by
    rw [List.findSome?_eq_none_iff]
    intro t ht
    have hdangling : r.dangling? t = none := by
      unfold Catalog.dangling?
      rw [List.find?_eq_none]
      intro name hname
      simpa [Option.isSome_iff_ne_none] using h t ht name hname
    rw [hdangling]
    rfl
  unfold Catalog.validate
  rw [hnone]

/-- To expose a type does not change what names mean. -/
theorem Equivalent.expose {exposed : Registry} (h : r.Equivalent r') (hr : r.expose name = .ok (exposed, t)) :
    ∃ exposed', r'.expose name = .ok (exposed', t) ∧ exposed.Equivalent exposed' := by
  obtain ⟨hget, rfl⟩ := expose_eq_ok_iff.1 hr
  refine ⟨_, expose_eq_ok_iff.2 ⟨h.get ▸ hget, rfl⟩, ?_⟩
  rw [← h.exposed]
  split
  · exact h
  · exact ⟨h.get, rfl⟩

theorem Equivalent.exposeAll {names : List String} {exposed : Registry} (h : r.Equivalent r')
    (hr : TypeModel.exposeAll r names = .ok exposed) :
    ∃ exposed', TypeModel.exposeAll r' names = .ok exposed' ∧ exposed.Equivalent exposed' := by
  induction names generalizing r r' with
  | nil =>
    cases hr
    exact ⟨r', rfl, h⟩
  | cons name names ih =>
    rw [TypeModel.exposeAll] at hr
    split at hr
    · cases hr
    · rename_i first t hexpose
      obtain ⟨first', hexpose', hfirst⟩ := h.expose hexpose
      obtain ⟨exposed', hall, hequiv⟩ := ih hfirst hr
      refine ⟨exposed', ?_, hequiv⟩
      rw [TypeModel.exposeAll, hexpose']
      exact hall

end Registry

open Registry in
/-- **Models that list their types in another order** are loaded together or not at all, as registries in
which names mean the same. -/
theorem TypeModel.load_perm {m : TypeModel} {types : List TypeDef} {loaded : LoadedModel}
    (hperm : m.types.Perm types) (h : m.load = .ok loaded) :
    ∃ loaded', TypeModel.load { m with types } = .ok loaded' ∧ loaded'.context = loaded.context ∧
      loaded.registry.Equivalent loaded'.registry := by
  obtain ⟨registered, hregister, hvalidate, hexpose, hcontext, hname⟩ := load_eq_ok_iff.1 h
  obtain ⟨hcustom, hexposed⟩ := custom_of_registerAll hregister
  -- The other types are registered too, and names mean the same.
  obtain ⟨registered', hregister'⟩ :=
    registerAll_succeeds_iff.2 ((registerAll_succeeds_iff.1 ⟨registered, hregister⟩).perm hperm)
  obtain ⟨hcustom', hexposed'⟩ := custom_of_registerAll hregister'
  have hsame : registered.custom.Perm registered'.custom := by
    rw [hcustom, hcustom']
    exact hperm.append_left _
  have hequiv : registered.Equivalent registered' :=
    (Built.empty.registerAll hregister).distinct.equivalent (Built.empty.registerAll hregister').distinct
      hsame (hexposed.trans hexposed'.symm)
  -- So they are valid, and what is exposed is found.
  have hvalidate' : registered'.validate = .ok () := by
    rw [validate_eq_ok_iff] at hvalidate ⊢
    intro t ht name hmention
    rw [← hequiv.get]
    exact hvalidate t (hsame.mem_iff.2 ht) name hmention
  obtain ⟨exposed, hexpose', hequiv⟩ := hequiv.exposeAll hexpose
  refine ⟨⟨exposed, loaded.context⟩, ?_, rfl, hequiv⟩
  rw [load_eq_ok_iff]
  rw [hequiv.get] at hcontext hname
  exact ⟨_, hregister', hvalidate', hexpose', hcontext, hname⟩

end TypeAhead
