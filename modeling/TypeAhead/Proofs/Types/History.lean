/-
  TypeAhead.Proofs.Types.History — A REGISTRY AFTER ANY NUMBER OF CALLS.

  A registry is stored as a catalog: a table of full names, a list of custom types and
  a list of exposed ones.  Two calls change it: one registers a type, the other exposes
  one.  Either may fail, and what it has changed by then is changed; but nothing is.
  Whatever is called in whatever order, the table and the two lists stay consistent:
  predefined types cannot be replaced, the table has the predefined and the custom
  types and no other ones, and each type on either list is found by its full name, as
  it was registered.

      perform_cases             all that a call can do
      Consistent                how the table, the lists and names go together
      consistent_performAll     after every sequence of calls
-/
import TypeAhead.Proofs.Types.Registered

namespace TypeAhead

/-! ## §1. Calls. -/

namespace Catalog

/-- A call that may change a catalog. -/
inductive Call where
  /-- Adds a custom type. -/
  | register (t : TypeDef)
  /-- Lets every expression name a type. -/
  | expose (name : String)

/-- What a call does. -/
def perform : Call → EStateM ModelFault Catalog TypeDef
  | .register t => register t
  | .expose name => expose name

/-- The catalog that a call leaves, whether it succeeds or fails. -/
def after (c : Catalog) (call : Call) : Catalog :=
  match (perform call).run c with
  | .ok _ d => d
  | .error _ d => d

/-- The catalog after one call and another. -/
def performAll : Catalog → List Call → Catalog
  | c, [] => c
  | c, call :: calls => performAll (c.after call) calls

/-- The type that a call registers, if it succeeds. -/
def registers? (c : Catalog) : Call → Option TypeDef
  | .register t =>
    match (register t).run c with
    | .ok t _ => some t
    | .error _ _ => none
  | .expose _ => none

/-- The types that calls register, one after the other. -/
def registered : Catalog → List Call → List TypeDef
  | _, [] => []
  | c, call :: calls => (c.registers? call).toList ++ registered (c.after call) calls

variable {c d : Catalog} {t u : TypeDef} {name : String}

/-- **All that a call can do**: fail and change nothing, enter a type of a new name in the table and at the end
of the custom ones, or add a type that a name means at the end of the exposed ones, unless it is among them. -/
theorem perform_cases (c : Catalog) (call : Call) :
    (∃ fault, (perform call).run c = .error fault c ∧ c.registers? call = none) ∨
    (∃ t, (perform call).run c = .ok t (c.add t) ∧ c.registers? call = some t ∧
      c.ofFullName? t.fullName = none ∧ (arrayRank t.fullName.toList.reverse).1 = 0) ∨
    (∃ t name, (perform call).run c =
        .ok t (if t.isAmong c.exposed then c else { c with exposed := c.exposed ++ [t] }) ∧
      c.registers? call = none ∧ c.get? name = some t) := by
  cases call with
  | register t =>
    have hrun := run_register c t
    split at hrun
    · left
      refine ⟨_, hrun, ?_⟩
      simp only [registers?, hrun]
    · rename_i hnew
      rw [Bool.or_eq_true, not_or, decide_eq_true_iff, Decidable.not_not] at hnew
      right; left
      refine ⟨t, hrun, ?_, Option.not_isSome_iff_eq_none.1 hnew.1, hnew.2⟩
      simp only [registers?, hrun]
  | expose name =>
    have hrun := run_expose c name
    cases hget : c.get? name with
    | none =>
      rw [hget] at hrun
      exact .inl ⟨_, hrun, rfl⟩
    | some t =>
      rw [hget] at hrun
      exact .inr (.inr ⟨t, name, hrun, rfl, hget⟩)

/-- **A call that fails changes nothing.** -/
theorem eq_of_error {call : Call} {fault : ModelFault} (h : (perform call).run c = .error fault d) : d = c := by
  rcases c.perform_cases call with ⟨_, hrun, -⟩ | ⟨_, hrun, -⟩ | ⟨_, _, hrun, -⟩
  · cases h.symm.trans hrun
    rfl
  · cases h.symm.trans hrun
  · cases h.symm.trans hrun

/-- **Every call keeps names and lists together.** -/
theorem Coherent.after (hc : c.Coherent) (call : Call) : (c.after call).Coherent := by
  unfold Catalog.after
  rcases c.perform_cases call with ⟨_, hrun, -⟩ | ⟨t, hrun, -, hnew, -⟩ | ⟨t, _, hrun, -⟩
  · rw [hrun]
    exact hc
  · rw [hrun]
    exact hc.add hnew
  · rw [hrun]
    dsimp only
    split
    · exact hc
    · exact hc

theorem Coherent.performAll (hc : c.Coherent) (calls : List Call) : (c.performAll calls).Coherent := by
  induction calls generalizing c with
  | nil => exact hc
  | cons call calls ih => exact ih (hc.after call)

/-! ## §2. What calls keep. -/

/-- How the table, the lists of a catalog and the meaning of names go together. -/
structure Consistent (c : Catalog) : Prop where
  /-- In the table are the predefined and the custom types, each under its full name. -/
  table : ∀ name t, c.types.lookup name = some t ↔
    t.fullName = name ∧ (t ∈ TypeAhead.predefined ∨ t ∈ c.custom)
  /-- A predefined type is found by its full name, with the members that it always has. -/
  predefined : ∀ t ∈ predefined, c.get? t.fullName = some t
  /-- Custom types have full names of their own … -/
  distinct : (c.custom.map TypeDef.fullName).Nodup
  /-- … that no predefined type has. -/
  fresh : ∀ t ∈ c.custom, ∀ u ∈ TypeAhead.predefined, t.fullName ≠ u.fullName
  /-- A custom type is found by its full name, as it was registered. -/
  custom : ∀ t ∈ c.custom, c.get? t.fullName = some t
  /-- No type is exposed twice. -/
  once : (c.exposed.map TypeDef.fullName).Nodup
  /-- An exposed type is found by its full name. -/
  exposed : ∀ t ∈ c.exposed, c.get? t.fullName = some t

end Catalog

namespace Registry

variable {r : Registry} {t u : TypeDef} {name : String}

/-- A type of a new full name leaves full names distinct. -/
theorem nodup_concat {types : List TypeDef} (h : (types.map TypeDef.fullName).Nodup)
    (hnew : ∀ u ∈ types, u.fullName ≠ t.fullName) : ((types ++ [t]).map TypeDef.fullName).Nodup := by
  rw [List.map_append, List.nodup_append]
  refine ⟨h, by simp, ?_⟩
  intro _ hmem _ ht heq
  obtain ⟨u, hu, hname⟩ := List.mem_map.1 hmem
  exact hnew u hu (hname.trans (heq.trans (List.mem_singleton.1 ht)))

/-- What is exposed is a type of the registry. -/
theorem Built.exposed (hr : r.Built) : ∀ t ∈ r.exposed, r.Knows t := by
  -- By induction on how the registry was built: what is known stays known.
  induction hr with
  | empty => exact nofun
  | @register r r' t _ hr ih =>
    obtain ⟨-, -, rfl⟩ := register_eq_ok_iff.1 hr
    intro u hu
    obtain ⟨element, rank, helement, heq⟩ := ih u hu
    exact ⟨element, rank, helement.imp_right (List.mem_append_left [t]), heq⟩
  | @expose r r' t name _ hr ih =>
    obtain ⟨hget, rfl⟩ := expose_eq_ok_iff.1 hr
    split
    · exact ih
    · exact forall_concat ih (knows_of_get? hget)

/-- Custom types have distinct full names. -/
theorem Built.nodup_custom (hr : r.Built) : (r.custom.map TypeDef.fullName).Nodup := by
  induction hr with
  | empty => exact List.nodup_nil
  | @register r r' t _ hr ih =>
    obtain ⟨hnew, -, rfl⟩ := register_eq_ok_iff.1 hr
    refine nodup_concat ih ?_
    intro u hu heq
    -- The name of the new type would mean the old one.
    rw [ofFullName?_eq_or, Option.or_eq_none_iff, List.find?_eq_none] at hnew
    exact hnew.2 u hu (beq_iff_eq.2 heq)
  | @expose r r' t name _ hr ih =>
    obtain ⟨-, rfl⟩ := expose_eq_ok_iff.1 hr
    split
    · exact ih
    · exact ih

theorem lookup_predefinedNamed (ht : t ∈ predefined) : predefinedNamed.lookup t.fullName = some t := by
  have hall : ∀ t ∈ predefined, predefinedNamed.lookup t.fullName = some t := by decide +kernel
  exact hall t ht

/-- No custom type has the full name of a predefined one. -/
theorem Built.fullName_ne_predefined (hr : r.Built) (ht : t ∈ r.custom) (hu : u ∈ predefined) :
    t.fullName ≠ u.fullName := by
  induction hr with
  | empty => cases ht
  | @register r r' v _ hr ih =>
    obtain ⟨hnew, -, rfl⟩ := register_eq_ok_iff.1 hr
    rcases List.mem_append.1 ht with ht | ht
    · exact ih ht
    · rw [List.mem_singleton.1 ht]
      intro heq
      rw [ofFullName?_eq_or, heq, lookup_predefinedNamed hu] at hnew
      cases hnew
  | @expose r r' v name _ hr ih =>
    obtain ⟨-, rfl⟩ := expose_eq_ok_iff.1 hr
    split at ht
    · exact ih ht
    · exact ih ht

/-- In the table are the types of the registry that are no arrays. -/
theorem Built.lookup_eq_some_iff (hr : r.Built) : r.types.lookup name = some t ↔
    t.fullName = name ∧ (t ∈ predefined ∨ t ∈ r.custom) := by
  constructor
  · intro h
    refine ⟨?_, mem_of_ofFullName? h⟩
    have h : r.ofFullName? name = some t := h
    rw [ofFullName?_eq_or, Option.or_eq_some_iff] at h
    rcases h with hlookup | ⟨-, hfind⟩
    · obtain ⟨u, -, heq⟩ := List.mem_map.1 (mem_of_lookup hlookup)
      cases heq
      rfl
    · simpa using List.find?_some hfind
  · rintro ⟨rfl, ht | ht⟩
    · show r.ofFullName? t.fullName = some t
      rw [ofFullName?_eq_or, lookup_predefinedNamed ht]
      rfl
    · exact hr.distinct.unique t ht

/-- Exposed types have distinct full names: a type of the name of another one is that type. -/
theorem Built.nodup_exposed (hr : r.Built) : (r.exposed.map TypeDef.fullName).Nodup := by
  -- By induction on how the registry was built; a registration leaves the exposed types alone.
  induction hr with
  | empty => exact List.nodup_nil
  | @register r r' t _ hr ih =>
    obtain ⟨-, -, rfl⟩ := register_eq_ok_iff.1 hr
    exact ih
  | @expose r r' t name h hr ih =>
    obtain ⟨hget, rfl⟩ := expose_eq_ok_iff.1 hr
    split
    · exact ih
    · rename_i hnew
      refine nodup_concat ih ?_
      intro u hu heq
      -- One name means one type, so the new type would be among the old ones.
      have hsame : u = t := by
        have hfound := h.get?_fullName (h.exposed u hu)
        rw [heq, h.get?_fullName (knows_of_get? hget)] at hfound
        exact (Option.some.inj hfound).symm
      rw [TypeDef.isAmong, List.any_eq_true] at hnew
      exact hnew ⟨u, hu, hsame ▸ u.same_refl⟩

/-- **In every registry the table, the lists and names go together.** -/
theorem Built.consistent (hr : r.Built) : r.Consistent where
  table _ _ := hr.lookup_eq_some_iff
  predefined _ ht := get?_predefined ht
  distinct := hr.nodup_custom
  fresh _ ht _ hu := hr.fullName_ne_predefined ht hu
  custom t ht := hr.get?_fullName ⟨t, 0, .inr ht, rfl⟩
  once := hr.nodup_exposed
  exposed t ht := hr.get?_fullName (hr.exposed t ht)

/-! ## §3. Sequences of calls. -/

open Catalog (Call)

/-- The registry that a call leaves. -/
def after (r : Registry) (call : Call) : Registry := ⟨r.toCatalog.after call, r.coherent.after call⟩

/-- The registry after one call and another. -/
def performAll (r : Registry) (calls : List Call) : Registry :=
  ⟨r.toCatalog.performAll calls, r.coherent.performAll calls⟩

/-- What a call makes of a registry: the same one, one with one more type, or one in which one more type is
exposed. -/
theorem after_cases (r : Registry) (call : Call) :
    (r.after call = r ∧ r.registers? call = none) ∨
    (∃ t, r.register t = .ok (r.after call) ∧ r.registers? call = some t) ∨
    (∃ t name, r.expose name = .ok (r.after call, t) ∧ r.registers? call = none) := by
  -- A registry is known by its catalog, so the cases are those of the catalog.
  have hafter : ∀ {c : Catalog} {h : c.Coherent}, r.toCatalog.after call = c → r.after call = ⟨c, h⟩ :=
    fun h => toCatalog_injective h
  rcases r.perform_cases call with
    ⟨_, hrun, hnone⟩ | ⟨t, hrun, hsome, hnew, hplain⟩ | ⟨t, name, hrun, hnone, hget⟩
  · exact .inl ⟨hafter (h := r.coherent) (by rw [Catalog.after, hrun]), hnone⟩
  -- A call that succeeds is one that the registry itself accepts.
  · right; left
    refine ⟨t, register_eq_ok_iff.2 ⟨hnew, hplain, ?_⟩, hsome⟩
    exact hafter (by rw [Catalog.after, hrun])
  · right; right
    refine ⟨t, name, expose_eq_ok_iff.2 ⟨hget, ?_⟩, hnone⟩
    apply toCatalog_injective
    show r.toCatalog.after call = _
    rw [Catalog.after, hrun]
    dsimp only
    split
    · rfl
    · rfl

theorem Built.after (hr : r.Built) (call : Call) : (r.after call).Built := by
  rcases r.after_cases call with ⟨heq, -⟩ | ⟨t, hregister, -⟩ | ⟨t, name, hexpose, -⟩
  · rw [heq]
    exact hr
  · exact hr.register hregister
  · exact hr.expose hexpose

theorem Built.performAll {calls : List Call} (hr : r.Built) : (r.performAll calls).Built := by
  induction calls generalizing r with
  | nil => exact hr
  | cons call calls ih => exact ih (hr.after call)

end Registry

namespace Catalog

/-- Custom types stand in the order in which they were registered. -/
theorem custom_performAll (c : Catalog) (calls : List Call) :
    (c.performAll calls).custom = c.custom ++ c.registered calls := by
  -- By induction on the calls, from any catalog on, as each call leaves another one.
  induction calls generalizing c with
  | nil => exact (List.append_nil _).symm
  | cons call calls ih =>
    have hcustom : (c.after call).custom = c.custom ++ (c.registers? call).toList := by
      unfold after
      rcases c.perform_cases call with ⟨_, hrun, hnone⟩ | ⟨t, hrun, hsome, -⟩ | ⟨t, _, hrun, hnone, -⟩
      · rw [hrun, hnone]
        exact (List.append_nil _).symm
      · rw [hrun, hsome]
        rfl
      · rw [hrun, hnone, Option.toList_none, List.append_nil]
        dsimp only
        split <;> rfl
    rw [performAll, registered, ih, hcustom, List.append_assoc]

/-- **Catalogs stay consistent, whatever is called.**  After every sequence of calls, succeeding or failing, the
table, the lists and names go together, the custom types are those that were registered, in this order, and
one more call that fails leaves all of the catalog as it is. -/
theorem consistent_performAll (calls : List Call) :
    (ofPredefined.performAll calls).Consistent ∧
    (ofPredefined.performAll calls).custom = ofPredefined.registered calls ∧
    ∀ call fault c, (perform call).run (ofPredefined.performAll calls) = .error fault c →
      c = ofPredefined.performAll calls := by
  have hbuilt : (Registry.empty.performAll calls).Built := Registry.Built.empty.performAll
  exact ⟨hbuilt.consistent, custom_performAll ofPredefined calls, fun _ _ _ => eq_of_error⟩

end Catalog

end TypeAhead
