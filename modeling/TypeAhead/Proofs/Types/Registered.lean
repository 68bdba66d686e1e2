/-
  TypeAhead.Proofs.Types.Registered — A FULL NAME IS THAT OF ONE TYPE.

  Registries are made from that of the predefined types, by registering types and
  by exposing them.  A type is registered under a full name that no other type
  has, so in every registry the full name of a type means that very type, and two
  descriptions of the same type are one.

      Built                    the registries that can be made
      Built.get?_fullName      what the full name of a type means
      Built.eq_of_same         the same type is described once
-/
import TypeAhead.Proofs.Types.Loaded

namespace TypeAhead.Registry

variable {r r' : Registry} {t u : TypeDef} {name : String}

/-! ## §1. How registries are made. -/

/-- The registries that can be made. -/
inductive Built : Registry → Prop where
  | empty : Built .empty
  | register {r r' : Registry} {t : TypeDef} (h : Built r) (hr : r.register t = .ok r') : Built r'
  | expose {r r' : Registry} {t : TypeDef} {name : String} (h : Built r)
      (hr : r.expose name = .ok (r', t)) : Built r'

/-- What is right of the full names in a registry. -/
structure Distinct (r : Registry) : Prop where
  /-- No custom type has the name of an array. -/
  plain : ∀ t ∈ r.custom, (arrayRank t.fullName.toList.reverse).1 = 0
  /-- The full name of a custom type means it. -/
  unique : ∀ t ∈ r.custom, r.ofFullName? t.fullName = some t

/-- What a full name means with one type more. -/
theorem ofFullName?_add (hnew : r.ofFullName? t.fullName = none) (name : String) :
    (r.add t hnew).ofFullName? name = if name = t.fullName then some t else r.ofFullName? name := by
  show ((t.fullName, t) :: r.types).lookup name = _
  by_cases hname : name = t.fullName
  · rw [if_pos hname, hname, List.lookup_cons_self]
  · rw [if_neg hname, List.lookup_cons, beq_false_of_ne hname]
    rfl

/-- A name that means a type keeps its meaning when another type is registered. -/
theorem ofFullName?_add_of_some (hnew : r.ofFullName? t.fullName = none) (h : r.ofFullName? name = some u) :
    (r.add t hnew).ofFullName? name = some u := by
  rw [ofFullName?_add, if_neg, h]
  rintro rfl
  cases hnew.symm.trans h

theorem Distinct.register (hr : r.Distinct) (h : r.register t = .ok r') : r'.Distinct := by
  obtain ⟨hnew, hplain, rfl⟩ := register_eq_ok_iff.1 h
  refine ⟨forall_concat hr.plain hplain,
    forall_concat (fun u hu => ofFullName?_add_of_some hnew (hr.unique u hu)) ?_⟩
  rw [ofFullName?_add, if_pos rfl]

theorem Distinct.expose (hr : r.Distinct) (h : r.expose name = .ok (r', t)) : r'.Distinct := by
  obtain ⟨-, rfl⟩ := expose_eq_ok_iff.1 h
  split
  · exact hr
  · exact ⟨hr.plain, hr.unique⟩

/-- **Whatever is done, full names stay distinct.** -/
theorem Built.distinct (h : r.Built) : r.Distinct := by
  induction h with
  | empty => exact ⟨nofun, nofun⟩
  | register _ hr ih => exact ih.register hr
  | expose _ hr ih => exact ih.expose hr

/-! ## §2. What a full name means. -/

/-- The full name of a predefined type means it, in every registry. -/
theorem get?_predefined (h : t ∈ predefined) : r.get? t.fullName = some t := by
  have hall : ∀ t ∈ predefined, (arrayRank t.fullName.toList.reverse).1 = 0 ∧
      predefinedNamed.lookup t.fullName = some t := by decide +kernel
  obtain ⟨hplain, hlookup⟩ := hall t h
  unfold Catalog.get?
  simp only [if_pos hplain]
  rw [Catalog.ofName?, ofFullName?_eq_or, hlookup]
  rfl

/-- **The full name of a type of the registry means that type.** -/
theorem Built.get?_fullName (hr : r.Built) (ht : r.Knows t) : r.get? t.fullName = some t := by
  obtain ⟨element, rank, helement, rfl⟩ := ht
  induction rank with
  | zero =>
    rcases helement with helement | helement
    · exact get?_predefined helement
    · show r.get? element.fullName = some element
      unfold Catalog.get?
      simp only [if_pos (hr.distinct.plain element helement)]
      rw [Catalog.ofName?, hr.distinct.unique element helement]
  | succ rank ih =>
    show r.get? (element.arrayOfRank rank).array.fullName = some (element.arrayOfRank rank).array
    rw [TypeDef.fullName_array, get?_array, ih]
    rfl

/-- The root is known to every registry. -/
theorem get?_object (r : Registry) : r.get? Known.object = some Predefined.objectType :=
  get?_predefined (t := Predefined.objectType) (by decide)

/-- The registry does not know another type by the name of this one. -/
def Admits (r : Registry) (t : TypeDef) : Prop := ∀ u, r.get? t.fullName = some u → u = t

theorem Built.admits (hr : r.Built) (ht : r.Knows t) : r.Admits t := by
  intro u hu
  cases (hr.get?_fullName ht).symm.trans hu
  rfl

/-- The type is the given one or one of the registry. -/
def KnowsWith (r : Registry) (t u : TypeDef) : Prop := u = t ∨ r.Knows u

/-- Bases and interfaces are types of the registry. -/
theorem inherited_knowsWith (t : TypeDef) : r.Inherited (r.KnowsWith t) where
  base _ h := .inr (knows_of_baseType? h)
  interface _ _ h := .inr (knows_of_get? h)

theorem Built.admits_of_knowsWith (hr : r.Built) (ht : r.Admits t) (hu : r.KnowsWith t u) :
    r.Admits u := by
  rcases hu with rfl | hu
  · exact ht
  · exact hr.admits hu

/-- **Types are the same only as themselves.** -/
theorem Built.eq_of_same (hr : r.Built) (ht : r.Admits t) {v w : TypeDef} (hv : r.KnowsWith t v)
    (hw : r.KnowsWith t w) (h : v.same w = true) : v = w := by
  rcases hv with rfl | hv
  · rcases hw with rfl | hw
    · rfl
    · symm
      apply ht
      rw [TypeDef.fullName_eq_of_same h]
      exact hr.get?_fullName hw
  · apply hr.admits_of_knowsWith ht hw
    rw [← TypeDef.fullName_eq_of_same h]
    exact hr.get?_fullName hv

/-- So a type is among others only as itself. -/
theorem Built.isAmong_iff (hr : r.Built) (ht : r.Admits t) (hu : r.KnowsWith t u)
    {types : List TypeDef} (htypes : ∀ v ∈ types, r.KnowsWith t v) :
    u.isAmong types = true ↔ u ∈ types := by
  unfold TypeDef.isAmong
  rw [List.any_eq_true]
  constructor
  · rintro ⟨v, hv, hsame⟩
    rw [hr.eq_of_same ht hu (htypes v hv) hsame]
    exact hv
  · intro h
    exact ⟨u, h, u.same_refl⟩

/-! ## §3. Registries of models. -/

theorem Built.registerAll {types : List TypeDef} (hr : r.Built)
    (h : TypeModel.registerAll r types = .ok r') : r'.Built :=
  keeps_registerAll (fun hr h => hr.register h) hr h

end TypeAhead.Registry
