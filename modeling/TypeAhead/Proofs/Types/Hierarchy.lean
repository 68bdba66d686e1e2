/-
  TypeAhead.Proofs.Types.Hierarchy — WHAT BASES AND INTERFACES INHERIT.

  What holds of a type and goes from types to their bases and interfaces holds of
  all types in whose members it has a share: of its base chain, of its interfaces
  and of the whole chain along which members are looked up.

      Inherited.baseChain      the bases of a type
      Inherited.interfaces     the interfaces of these
      Inherited.lookupChain    where members are looked for
-/
import TypeAhead.Proofs.Types.Distinct

namespace TypeAhead.Registry

variable {r : Registry} {P : TypeDef → Prop} {t : TypeDef}

/-- What holds of a type holds of its base and of its interfaces. -/
structure Inherited (r : Registry) (P : TypeDef → Prop) : Prop where
  base : ∀ {t u : TypeDef}, P t → r.baseType? t = some u → P u
  interface : ∀ {t u : TypeDef} {name : String}, P t → name ∈ t.interfaces → r.get? name = some u → P u

/-- The chain of bases goes on from what it has. -/
theorem prefix_extendChain (r : Registry) (chain : List TypeDef) (t : TypeDef) (budget : Nat) :
    chain <+: r.extendChain chain t budget := by
  induction budget generalizing chain t with
  | zero => exact List.prefix_refl chain
  | succ budget ih =>
    rw [extendChain]
    split
    · exact List.prefix_refl chain
    · split
      · exact List.prefix_refl chain
      · exact (List.prefix_append chain _).trans (ih _ _)

/-- A type is the first of its bases. -/
theorem mem_baseChain (r : Registry) (t : TypeDef) : t ∈ r.baseChain t :=
  (r.prefix_extendChain [t] t _).subset List.mem_cons_self

/-- The bases of a type are the first of the types in which its members are looked for. -/
theorem baseChain_isPrefix (r : Registry) (t : TypeDef) : r.baseChain t <+: r.lookupChain t :=
  adds_addNew.prefix_foldl _ _

/-- A list with one more element. -/
theorem forall_concat {types : List TypeDef} (htypes : ∀ u ∈ types, P u) (ht : P t) :
    ∀ u ∈ types ++ [t], P u := by
  intro u hu
  rcases List.mem_append.1 hu with hu | hu
  · exact htypes u hu
  · rw [List.mem_singleton.1 hu]
    exact ht

/-! ## §1. Bases. -/

/-- What goes from types to their bases holds of a whole chain. -/
theorem forall_extendChain (hbase : ∀ {t u : TypeDef}, P t → r.baseType? t = some u → P u)
    {budget : Nat} {chain : List TypeDef} (ht : P t) (hchain : ∀ u ∈ chain, P u) :
    ∀ u ∈ r.extendChain chain t budget, P u := by
  induction budget generalizing chain t with
  | zero => exact hchain
  | succ budget ih =>
    rw [Registry.extendChain]
    split
    · exact hchain
    · rename_i base hget
      split
      · exact hchain
      · exact ih (hbase ht hget) (forall_concat hchain (hbase ht hget))

theorem forall_baseChain (hbase : ∀ {t u : TypeDef}, P t → r.baseType? t = some u → P u) (ht : P t) :
    ∀ u ∈ r.baseChain t, P u := by
  apply forall_extendChain hbase ht
  intro u hu
  rw [List.mem_singleton.1 hu]
  exact ht

theorem Inherited.baseChain (hP : r.Inherited P) (ht : P t) : ∀ u ∈ r.baseChain t, P u :=
  forall_baseChain hP.base ht

/-! ## §2. Interfaces. -/

/-- What is found and what is pending has the property. -/
structure Search.All (P : TypeDef → Prop) (s : Search) : Prop where
  found : ∀ t ∈ s.found, P t
  pending : ∀ t ∈ s.pending, P t

section

-- What the property needs here is to go from types to their interfaces.
variable (hinterface : ∀ {t u : TypeDef} {name : String}, P t → name ∈ t.interfaces →
  r.get? name = some u → P u)

include hinterface

theorem Search.All.visit {s : Search} {name : String} (h : s.All P) (ht : P t)
    (hname : name ∈ t.interfaces) : (s.visit r name).All P := by
  unfold Search.visit
  split
  · exact h
  · dsimp only
    split
    · exact ⟨h.found, h.pending⟩
    · split
      · exact ⟨h.found, h.pending⟩
      · rename_i u hget
        have hu : P u := hinterface ht hname hget
        refine ⟨forall_concat h.found hu, ?_⟩
        intro v hv
        rcases List.mem_cons.1 hv with heq | hv
        · rw [heq]
          exact hu
        · exact h.pending v hv

theorem Search.All.visitAll {names : List String} {s : Search} (h : s.All P) (ht : P t)
    (hnames : ∀ name ∈ names, name ∈ t.interfaces) :
    (names.foldl (Search.visit r) s).All P := by
  induction names generalizing s with
  | nil => exact h
  | cons name names ih =>
    apply ih (h.visit hinterface ht (hnames name List.mem_cons_self))
    exact fun other hother => hnames other (List.mem_cons_of_mem name hother)

theorem Search.All.run {s : Search} {budget : Nat} (h : s.All P) :
    ∀ t ∈ s.run r budget, P t := by
  induction budget generalizing s with
  | zero => exact h.found
  | succ budget ih =>
    rw [Search.run]
    split
    · exact h.found
    · rename_i t pending hpending
      have hpending : ∀ u ∈ t :: pending, P u := hpending ▸ h.pending
      have hrest : Search.All P { s with pending } :=
        ⟨h.found, fun u hu => hpending u (List.mem_cons_of_mem t hu)⟩
      exact ih (hrest.visitAll hinterface (hpending t List.mem_cons_self) fun _ hname => hname)

end

theorem Inherited.interfaces (hP : r.Inherited P) (ht : P t) : ∀ u ∈ r.interfaces t, P u := by
  apply Search.All.run hP.interface
  refine ⟨nofun, ?_⟩
  exact fun u hu => hP.baseChain ht u (List.mem_reverse.1 hu)

theorem Inherited.hierarchy (hP : r.Inherited P) (ht : P t) : ∀ u ∈ r.hierarchy t, P u := by
  intro u hu
  rcases List.mem_append.1 hu with hu | hu
  · exact hP.interfaces ht u hu
  · exact hP.baseChain ht u hu

/-! ## §3. Where members are looked for. -/

/-- All types that are added are in the chain. -/
theorem isAmong_foldl_addNew {chain types : List TypeDef} (ht : t ∈ types) :
    t.isAmong (types.foldl addNew chain) = true := by
  have hself : ¬ t.same t = false := by simp [t.same_refl]
  obtain ⟨u, hu, hsame⟩ : ∃ u ∈ types.foldl addNew chain, ¬ u.same t = false := adds_addNew.exists_of_mem hself ht
  rw [Bool.not_eq_false] at hsame
  exact List.any_eq_true.2 ⟨u, hu, TypeDef.same_symm hsame⟩

/-- **Members are looked for in types that inherit the property**, and in the root. -/
theorem Inherited.lookupChain (hP : r.Inherited P) (hroot : ∀ u, r.get? Known.object = some u → P u)
    (ht : P t) : ∀ u ∈ r.lookupChain t, P u := by
  intro u hu
  rcases adds_addNew.mem_or_mem hu with hu | hu
  · exact hP.baseChain ht u hu
  · rcases List.mem_append.1 hu with hu | hu
    · exact hP.interfaces ht u hu
    · exact hroot u (Option.mem_toList.1 hu)

end TypeAhead.Registry
