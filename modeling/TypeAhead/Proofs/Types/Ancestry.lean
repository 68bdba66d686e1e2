/-
  TypeAhead.Proofs.Types.Ancestry — WHAT A TYPE INHERITS FROM.

  A type inherits from its bases, and from the interfaces of these and of their
  interfaces.  The chain along which members are looked up is a walk up the bases
  followed by a search of interfaces, both of which are cut off at a bound.  Where
  neither is, the chain holds what the type inherits from, all of it and nothing
  else but the root.

  The bases of an interface are not among it: the search follows interfaces only.

      mem_baseChain_of_hasBase     the walk finds every base
      Search.Covering.run          the search finds every interface
      mem_lookupChain_iff          where members are looked for
-/
import TypeAhead.Proofs.Types.Registered
import Mathlib.Data.List.Perm.Subperm
import Mathlib.Logic.Relation

namespace TypeAhead.Registry

open Relation

variable {r : Registry} {a b t u : TypeDef} {name : String}

/-! ## §1. What is declared and what is inherited. -/

/-- One type is the base of the other. -/
def HasBase (r : Registry) (t u : TypeDef) : Prop := r.baseType? t = some u

/-- One type names the other as an interface of its own. -/
def Implements (r : Registry) (t u : TypeDef) : Prop := ∃ name ∈ t.interfaces, r.get? name = some u

/-- One type is, or is a base of, or is an interface that is come to from a base of, the other. -/
def InheritsFrom (r : Registry) (t u : TypeDef) : Prop :=
  ∃ b, ReflTransGen r.HasBase t b ∧ ReflTransGen r.Implements b u

/-- One type names the other as its base or as an interface. -/
inductive Declares (r : Registry) (t u : TypeDef) : Prop where
  | base {name : String} (hname : t.base = some name) (hu : r.get? name = some u)
  | interface (h : r.Implements t u)

/-- A base is a type of the registry. -/
theorem HasBase.knows (h : r.HasBase t u) : r.Knows u := knows_of_baseType? h

/-- An interface is a type of the registry. -/
theorem Implements.knows (h : r.Implements t u) : r.Knows u := by
  obtain ⟨name, -, hget⟩ := h
  exact knows_of_get? hget

/-- Whatever a type declares is a type of the registry. -/
theorem Declares.knows (h : r.Declares t u) : r.Knows u := by
  cases h with
  | base _ hu => exact knows_of_get? hu
  | interface h => exact h.knows

/-- A base is a declared one or the root. -/
theorem HasBase.declares_or (h : r.HasBase t u) : r.Declares t u ∨ u = Predefined.objectType := by
  unfold HasBase baseType? at h
  split at h
  · rename_i hname
    exact .inl (.base hname h)
  · split at h
    · cases h
    · exact .inr (Option.some.inj (h.symm.trans r.get?_object))

/-- A declared base is a base. -/
theorem hasBase_of_declared (hname : t.base = some name) (hu : r.get? name = some u) : r.HasBase t u := by
  unfold HasBase baseType?
  rw [hname]
  exact hu

/-- There is nothing above the root. -/
theorem not_declares_object : ¬ r.Declares Predefined.objectType u := by
  intro h
  cases h with
  | base hname _ => cases hname
  | interface h =>
    obtain ⟨name, hname, -⟩ := h
    cases hname

/-- `System.Object` has no base. -/
theorem not_hasBase_object : ¬ r.HasBase Predefined.objectType u := by
  intro h
  have hnone : r.baseType? Predefined.objectType = none := rfl
  cases hnone.symm.trans h

/-- `System.Object` declares nothing, so that nothing else is above it. -/
theorem eq_object_of_declared (h : ReflTransGen r.Declares Predefined.objectType u) :
    u = Predefined.objectType := by
  rcases h.cases_head with h | ⟨v, hstep, -⟩
  · exact h.symm
  · exact absurd hstep not_declares_object

/-- What is inherited is declared on the way, or is the root. -/
theorem declared_of_hasBase (h : ReflTransGen r.HasBase t u) :
    ReflTransGen r.Declares t u ∨ u = Predefined.objectType := by
  induction h with
  | refl => exact .inl .refl
  | tail _ hbase ih =>
    rcases ih with ih | rfl
    · rcases hbase.declares_or with h | h
      · exact .inl (ih.tail h)
      · exact .inr h
    · exact absurd hbase not_hasBase_object

/-- What is inherited from is declared, step by step, or is `System.Object`. -/
theorem InheritsFrom.declared (h : r.InheritsFrom t u) :
    ReflTransGen r.Declares t u ∨ u = Predefined.objectType := by
  obtain ⟨b, hbase, hinterface⟩ := h
  induction hinterface with
  | refl => exact declared_of_hasBase hbase
  | tail _ hstep ih =>
    rcases ih with ih | rfl
    · exact .inl (ih.tail (.interface hstep))
    · exact absurd (.interface hstep) not_declares_object

theorem InheritsFrom.knowsWith (h : r.InheritsFrom t u) : r.KnowsWith t u := by
  obtain ⟨b, hbase, hinterface⟩ := h
  rcases hinterface.cases_tail with rfl | ⟨v, -, hv⟩
  · rcases hbase.cases_tail with rfl | ⟨v, -, hv⟩
    · exact .inl rfl
    · exact .inr hv.knows
  · exact .inr hv.knows

theorem inheritsFrom_refl (r : Registry) (t : TypeDef) : r.InheritsFrom t t := ⟨t, .refl, .refl⟩

/-- A type inherits from the interfaces of what it inherits from. -/
theorem InheritsFrom.implements (h : r.InheritsFrom t u) {v : TypeDef} (hv : r.Implements u v) :
    r.InheritsFrom t v := by
  obtain ⟨b, hbase, hinterface⟩ := h
  exact ⟨b, hbase, hinterface.tail hv⟩

/-- Fewer types are come to from the type than a hierarchy may hold. -/
def ReachesFew (r : Registry) (t : TypeDef) : Prop :=
  ∃ types : List TypeDef, types.length < Limits.hierarchy ∧ ∀ u, TransGen r.Declares t u → u ∈ types

/-- What the type inherits from does not name interfaces in more ways than they may be many. -/
def NamesFew (r : Registry) (t : TypeDef) : Prop :=
  ∃ names : List String, names.length ≤ Limits.hierarchy ∧
    ∀ u, r.InheritsFrom t u → ∀ name ∈ u.interfaces, (r.get? name).isSome = true → name ∈ names

/-! ## §2. The walk up the bases. -/

/-- What is in the chain of bases is reached from base to base. -/
theorem hasBase_of_mem_baseChain (h : u ∈ r.baseChain t) : ReflTransGen r.HasBase t u :=
  forall_baseChain (P := ReflTransGen r.HasBase t) ReflTransGen.tail .refl u h

/-- Each step adds one type at most. -/
theorem length_extendChain_le (chain : List TypeDef) (t : TypeDef) (budget : Nat) :
    (r.extendChain chain t budget).length ≤ chain.length + budget := by
  induction budget generalizing chain t with
  | zero => exact Nat.le_refl _
  | succ budget ih =>
    rw [extendChain]
    split
    · omega
    · split
      · omega
      · have hlength := ih (chain ++ [‹TypeDef›]) ‹TypeDef›
        rw [List.length_append, List.length_singleton] at hlength
        omega

/-- No chain of bases is longer than the cap. -/
theorem length_baseChain_le : (r.baseChain t).length ≤ Limits.hierarchy :=
  length_extendChain_le [t] t (Limits.hierarchy - 1)

/-- A chain that is lengthened at its last type: the others have their bases in it. -/
structure Ascending (r : Registry) (t : TypeDef) (chain : List TypeDef) (last : TypeDef) : Prop where
  known : ∀ v ∈ chain, r.KnowsWith t v
  nodup : chain.Nodup
  below : ∀ v ∈ chain, v = last ∨ v ≠ Predefined.objectType ∧ ∀ u, r.HasBase v u → u ∈ chain

/-- One base more. -/
theorem Ascending.concat {chain : List TypeDef} {last base : TypeDef}
    (h : r.Ascending t chain last) (hbase : r.HasBase last base) (hnew : base ∉ chain) :
    r.Ascending t (chain ++ [base]) base := by
  refine ⟨forall_concat h.known (.inr hbase.knows), ?_, ?_⟩
  · exact List.nodup_append.2 ⟨h.nodup, List.pairwise_singleton _ base, by
      intro v hv w hw heq
      rw [List.mem_singleton.1 hw] at heq
      exact hnew (heq ▸ hv)⟩
  · intro v hv
    rcases List.mem_append.1 hv with hv | hv
    · right
      rcases h.below v hv with rfl | ⟨hroot, hbases⟩
      · -- It has a base, and so is not the root.
        refine ⟨fun hroot => not_hasBase_object (hroot ▸ hbase), ?_⟩
        intro u hu
        cases hbase.symm.trans hu
        exact List.mem_append_right _ List.mem_cons_self
      · exact ⟨hroot, fun u hu => List.mem_append_left _ (hbases u hu)⟩
    · exact .inl (List.mem_singleton.1 hv)

/-- A chain holds the bases of all its types if it holds that of the last one. -/
theorem Ascending.closed {chain : List TypeDef} {last : TypeDef} (h : r.Ascending t chain last)
    (hlast : ∀ u, r.HasBase last u → u ∈ chain) : ∀ v ∈ chain, ∀ u, r.HasBase v u → u ∈ chain := by
  intro v hv u hu
  rcases h.below v hv with rfl | ⟨-, hbases⟩
  · exact hlast u hu
  · exact hbases u hu

/-- **A chain holds the bases of all its types**, or is as long as it may be and below the root. -/
theorem Ascending.extendChain (hr : r.Built) (ht : r.Admits t) {chain : List TypeDef}
    {last : TypeDef} (budget : Nat) (h : r.Ascending t chain last) : (r.extendChain chain last budget).Nodup ∧
      ((∀ v ∈ r.extendChain chain last budget, ∀ u, r.HasBase v u →
          u ∈ r.extendChain chain last budget) ∨
        (r.extendChain chain last budget).length = chain.length + budget ∧
          Predefined.objectType ∉ r.extendChain chain last budget) := by
  -- The chain grows by one base in each step, until the base is missing or in the chain already.
  induction budget generalizing chain last with
  | zero =>
    refine ⟨h.nodup, ?_⟩
    by_cases hlast : last = Predefined.objectType
    · exact .inl (h.closed fun _ hu => absurd (hlast ▸ hu) not_hasBase_object)
    · right
      refine ⟨rfl, ?_⟩
      intro hroot
      rcases h.below _ hroot with heq | ⟨hne, -⟩
      · exact hlast heq.symm
      · exact hne rfl
  | succ budget ih =>
    rw [Registry.extendChain]
    split
    · rename_i hnone
      refine ⟨h.nodup, .inl (h.closed fun u hu => ?_)⟩
      cases hnone.symm.trans hu
    · rename_i base hbase
      have hbase : r.HasBase last base := hbase
      have hamong := hr.isAmong_iff ht (.inr hbase.knows) h.known
      split
      -- A base that is in the chain ends it: it is closed then.
      · rename_i hin
        refine ⟨h.nodup, .inl (h.closed fun u hu => ?_)⟩
        cases hbase.symm.trans hu
        exact hamong.1 hin
      · rename_i hout
        have hnext := ih (h.concat hbase fun hin => hout (hamong.2 hin))
        rw [List.length_append, List.length_singleton, Nat.add_right_comm, Nat.add_assoc] at hnext
        exact hnext

/-- **The walk finds every base**, except perhaps the root, if few types are come to. -/
theorem mem_baseChain_of_hasBase (hr : r.Built) (ht : r.Admits t) (hfew : r.ReachesFew t)
    (h : ReflTransGen r.HasBase t u) : u ∈ r.baseChain t ∨ u = Predefined.objectType := by
  have hstart : r.Ascending t [t] t := by
    refine ⟨?_, List.pairwise_singleton _ t, ?_⟩
    · intro v hv
      exact .inl (List.mem_singleton.1 hv)
    · intro v hv
      exact .inl (List.mem_singleton.1 hv)
  obtain ⟨hnodup, hclosed | ⟨hlength, hroot⟩⟩ :=
    hstart.extendChain hr ht (Limits.hierarchy - 1)
  · left
    -- A chain that is closed holds whatever is come to from base to base.
    induction h with
    | refl => exact mem_baseChain r t
    | tail _ hbase ih => exact hclosed _ ih _ hbase
  · -- A chain of full length holds all types that are come to, since these are no more.
    obtain ⟨types, hfewer, htypes⟩ := hfew
    have hcome : ∀ {v : TypeDef}, ReflTransGen r.Declares t v → v ∈ t :: types := by
      intro v hv
      rcases reflTransGen_iff_eq_or_transGen.1 hv with rfl | hv
      · exact List.mem_cons_self
      · exact List.mem_cons_of_mem t (htypes v hv)
    have hsub : r.baseChain t ⊆ t :: types := by
      intro v hv
      rcases declared_of_hasBase (hasBase_of_mem_baseChain hv) with h | rfl
      · exact hcome h
      · exact absurd hv hroot
    have hlong : (t :: types).length ≤ (r.baseChain t).length := by
      have hbudget : 1 + (Limits.hierarchy - 1) = Limits.hierarchy := rfl
      have hwhole : (r.baseChain t).length = Limits.hierarchy := hlength.trans hbudget
      rw [hwhole, List.length_cons]
      exact hfewer
    have hperm := (List.subperm_of_subset hnodup hsub).perm_of_length_le hlong
    rcases declared_of_hasBase h with h | h
    · exact .inl (hperm.mem_iff.2 (hcome h))
    · exact .inr h

/-! ## §3. The search of interfaces. -/

/-- The interfaces of a type have been looked up. -/
def Search.Looked (s : Search) (t : TypeDef) : Prop := ∀ name ∈ t.interfaces, name ∈ s.seen

/-- A search from some types that comes to all interfaces, of which the names are among `names`.  Types
of which the interfaces are not yet looked up are pending or in hand. -/
structure Search.Covering (r : Registry) (start : List TypeDef) (names : List String)
    (inHand : TypeDef → Prop) (s : Search) : Prop where
  nodup : s.seen.Nodup
  names : ∀ name ∈ s.seen, (r.get? name).isSome = true → name ∈ names
  count : s.found.length = (s.seen.filter fun name => (r.get? name).isSome).length
  found : ∀ name ∈ s.seen, ∀ u, r.get? name = some u → u ∈ s.found
  looked : ∀ u, u ∈ start ∨ u ∈ s.found → u ∈ s.pending ∨ inHand u ∨ s.Looked u

/-- How much there may still be to do in a search. -/
def Search.room (s : Search) : Nat := s.pending.length + (Limits.hierarchy - s.found.length)

section

variable {start : List TypeDef} {names : List String} {inHand : TypeDef → Prop} {s : Search}

/-- A name that means no type is only marked as seen. -/
theorem Search.visit_of_none (hnew : name ∉ s.seen) (hget : r.get? name = none) :
    s.visit r name = { s with seen := name :: s.seen } := by
  unfold visit
  simp [hnew, hget]

/-- A name that is new and means a type is found, as long as there is room. -/
theorem Search.visit_of_some (hnew : name ∉ s.seen) (hget : r.get? name = some u)
    (hroom : s.found.length < Limits.hierarchy) :
    s.visit r name = ⟨s.found ++ [u], u :: s.pending, name :: s.seen⟩ := by
  unfold visit
  simp [hnew, hget, hroom]

/-- A visit makes no room. -/
theorem Search.room_visit_le (s : Search) : (s.visit r name).room ≤ s.room := by
  unfold visit
  split
  · exact Nat.le_refl _
  · dsimp only
    split
    · exact Nat.le_refl _
    · split
      · exact Nat.le_refl _
      · unfold room
        rw [List.length_cons, List.length_append, List.length_singleton]
        omega

/-- There is room for an interface that was not looked up before. -/
theorem Search.Covering.hasRoom (h : s.Covering r start names inHand)
    (hfew : names.length ≤ Limits.hierarchy) (hnew : name ∉ s.seen)
    (hget : (r.get? name).isSome = true) (hname : name ∈ names) :
    s.found.length < Limits.hierarchy := by
  have hnodup : (name :: s.seen.filter fun name => (r.get? name).isSome).Nodup := by
    refine List.nodup_cons.2 ⟨?_, h.nodup.filter _⟩
    intro hin
    exact hnew (List.mem_filter.1 hin).1
  have hsub : (name :: s.seen.filter fun name => (r.get? name).isSome) ⊆ names := by
    intro other hother
    rcases List.mem_cons.1 hother with rfl | hother
    · exact hname
    · exact h.names other (List.mem_filter.1 hother).1 (List.mem_filter.1 hother).2
  have hlength := (List.subperm_of_subset hnodup hsub).length_le
  rw [List.length_cons, ← h.count] at hlength
  omega

/-- What has been looked at stays so when more is seen. -/
theorem Search.Looked.cons (h : s.Looked t) {found pending : List TypeDef} :
    Looked ⟨found, pending, name :: s.seen⟩ t :=
  fun other hother => List.mem_cons_of_mem name (h other hother)

/-- A name that was looked up is among the known ones, if it finds a type. -/
theorem Search.Covering.names_cons (h : s.Covering r start names inHand)
    (hname : (r.get? name).isSome = true → name ∈ names) :
    ∀ other ∈ name :: s.seen, (r.get? other).isSome = true → other ∈ names := by
  intro other hother hget
  rcases List.mem_cons.1 hother with rfl | hother
  · exact hname hget
  · exact h.names other hother hget

/-- A name that finds no type. -/
theorem Search.Covering.visit_none (h : s.Covering r start names inHand) (hnew : name ∉ s.seen)
    (hget : r.get? name = none) : (s.visit r name).Covering r start names inHand := by
  rw [visit_of_none hnew hget]
  refine ⟨List.nodup_cons.2 ⟨hnew, h.nodup⟩, h.names_cons (by simp [hget]), ?_, ?_, ?_⟩
  · show s.found.length = _
    rw [h.count, List.filter_cons_of_neg (by simp [hget])]
  · intro other hother u hu
    rcases List.mem_cons.1 hother with rfl | hother
    · cases hget.symm.trans hu
    · exact h.found other hother u hu
  · exact fun u hu => (h.looked u hu).imp_right (Or.imp_right fun hlooked => hlooked.cons)

/-- A name that finds a type, which waits from then on. -/
theorem Search.Covering.visit_some (h : s.Covering r start names inHand)
    (hfew : names.length ≤ Limits.hierarchy) (hnew : name ∉ s.seen) {found : TypeDef}
    (hget : r.get? name = some found) (hname : name ∈ names) :
    (s.visit r name).Covering r start names inHand := by
  -- Fewer types are found than there are names, so that there is room for one more.
  have hroom := h.hasRoom hfew hnew (by rw [hget]; rfl) hname
  rw [visit_of_some hnew hget hroom]
  refine ⟨List.nodup_cons.2 ⟨hnew, h.nodup⟩, h.names_cons fun _ => hname, ?_, ?_, ?_⟩
  · show (s.found ++ [found]).length = _
    rw [List.length_append, List.length_singleton, h.count, List.filter_cons_of_pos (by simp [hget]),
      List.length_cons]
  · intro other hother u hu
    rcases List.mem_cons.1 hother with rfl | hother
    · cases hget.symm.trans hu
      exact List.mem_append_right _ List.mem_cons_self
    · exact List.mem_append_left _ (h.found other hother u hu)
  · intro u hu
    -- The type that is found waits to be looked at.
    by_cases heq : u = found
    · exact .inl (heq ▸ List.mem_cons_self)
    · have hu : u ∈ start ∨ u ∈ s.found := by simpa [heq] using hu
      rcases h.looked u hu with hwaits | hhand | hlooked
      · exact .inl (List.mem_cons_of_mem found hwaits)
      · exact .inr (.inl hhand)
      · exact .inr (.inr hlooked.cons)

/-- A new name is seen after the visit, whether or not it means a type. -/
theorem Search.seen_visit (s : Search) (hnew : name ∉ s.seen) : (s.visit r name).seen = name :: s.seen := by
  unfold visit
  rw [if_neg (by simpa using hnew)]
  dsimp only
  repeat' split
  all_goals rfl

/-- One name more. -/
theorem Search.Covering.visit (h : s.Covering r start names inHand)
    (hfew : names.length ≤ Limits.hierarchy)
    (hname : (r.get? name).isSome = true → name ∈ names) :
    (s.visit r name).Covering r start names inHand ∧ name ∈ (s.visit r name).seen ∧
      s.seen ⊆ (s.visit r name).seen := by
  by_cases hseen : name ∈ s.seen
  · have hsame : s.visit r name = s := by
      unfold Search.visit
      rw [if_pos (List.contains_iff_mem.2 hseen)]
    rw [hsame]
    exact ⟨h, hseen, fun _ hother => hother⟩
  · have hcovering : (s.visit r name).Covering r start names inHand := by
      cases hget : r.get? name with
      | none => exact h.visit_none hseen hget
      | some found => exact h.visit_some hfew hseen hget (hname (by rw [hget]; rfl))
    rw [Search.seen_visit s hseen]
    exact ⟨hcovering, List.mem_cons_self, List.subset_cons_self name s.seen⟩

/-- All names of a type. -/
theorem Search.Covering.visitAll {some : List String} (h : s.Covering r start names inHand)
    (hfew : names.length ≤ Limits.hierarchy)
    (hnames : ∀ name ∈ some, (r.get? name).isSome = true → name ∈ names) :
    (some.foldl (Search.visit r) s).Covering r start names inHand ∧
      (∀ name, name ∈ some ∨ name ∈ s.seen → name ∈ (some.foldl (Search.visit r) s).seen) ∧
      (some.foldl (Search.visit r) s).room ≤ s.room := by
  -- Name by name; what was seen stays so.
  induction some generalizing s with
  | nil =>
    refine ⟨h, ?_, Nat.le_refl _⟩
    intro name hname
    rcases hname with hname | hname
    · cases hname
    · exact hname
  | cons first some ih =>
    obtain ⟨hvisit, hfirst, hseen⟩ := h.visit hfew (hnames first List.mem_cons_self)
    obtain ⟨hcovering, hall, hroom⟩ :=
      ih hvisit fun name hname => hnames name (List.mem_cons_of_mem first hname)
    refine ⟨hcovering, ?_, Nat.le_trans hroom (Search.room_visit_le s)⟩
    intro name hname
    apply hall
    rcases hname with hname | hname
    · rcases List.mem_cons.1 hname with rfl | hname
      · exact .inr hfirst
      · exact .inl hname
    · exact .inr (hseen hname)

/-- **The search finds every interface** of where it starts and of what it finds. -/
theorem Search.Covering.run {P : TypeDef → Prop}
    (hP : ∀ {t u : TypeDef} {name : String}, P t → name ∈ t.interfaces → r.get? name = some u → P u)
    (hnames : ∀ t, P t → ∀ name ∈ t.interfaces, (r.get? name).isSome = true → name ∈ names)
    (hfew : names.length ≤ Limits.hierarchy) {budget : Nat}
    (h : s.Covering r start names fun _ => False) (hall : s.All P) (hroom : s.room < budget) :
    ∀ t, t ∈ start ∨ t ∈ s.run r budget → ∀ u, r.Implements t u → u ∈ s.run r budget := by
  induction budget generalizing s with
  | zero => cases hroom
  | succ budget ih =>
    -- By induction on the budget: each step takes one type that waits.
    rw [Search.run]
    split
    · rename_i hpending
      intro t ht u hu
      obtain ⟨name, hname, hget⟩ := hu
      -- With none waiting, all interfaces of what was found have been seen.
      rcases h.looked t ht with hwaits | hhand | hlooked
      · rw [hpending] at hwaits
        cases hwaits
      · cases hhand
      · exact h.found name (hlooked name hname) u hget
    · rename_i next pending hpending
      have hnext : P next := hall.pending next (hpending ▸ List.mem_cons_self)
      have hrest : Search.All P { s with pending } :=
        ⟨hall.found, fun u hu => hall.pending u (hpending ▸ List.mem_cons_of_mem next hu)⟩
      -- The next type is in hand while its interfaces are looked up.
      have htaken : Search.Covering r start names (· = next) { s with pending } := by
        refine ⟨h.nodup, h.names, h.count, h.found, ?_⟩
        intro u hu
        rcases h.looked u hu with hwaits | hhand | hlooked
        · rw [hpending] at hwaits
          rcases List.mem_cons.1 hwaits with heq | hwaits
          · exact .inr (.inl heq)
          · exact .inl hwaits
        · cases hhand
        · exact .inr (.inr hlooked)
      obtain ⟨hcovering, hseen, hless⟩ := htaken.visitAll hfew (hnames next hnext)
      apply ih
      · refine ⟨hcovering.nodup, hcovering.names, hcovering.count, hcovering.found, ?_⟩
        intro u hu
        rcases hcovering.looked u hu with hwaits | rfl | hlooked
        · exact .inl hwaits
        · exact .inr (.inr fun name hname => hseen name (.inl hname))
        · exact .inr (.inr hlooked)
      · exact hrest.visitAll hP hnext fun _ hname => hname
      -- The type that was taken makes the measure smaller, and what is found keeps it.
      · have htake : Search.room { s with pending } + 1 = s.room := by
          unfold Search.room
          rw [hpending, List.length_cons]
          show pending.length + (Limits.hierarchy - s.found.length) + 1 = _
          omega
        omega

end

/-- An interface is come to from a type of the chain of bases. -/
theorem implements_of_mem_interfaces (h : u ∈ r.interfaces t) :
    ∃ b ∈ r.baseChain t, ReflTransGen r.Implements b u := by
  apply Search.All.run (P := fun u => ∃ b ∈ r.baseChain t, ReflTransGen r.Implements b u) _ _ u h
  · rintro v w name ⟨b, hb, hv⟩ hname hget
    exact ⟨b, hb, hv.tail ⟨name, hname, hget⟩⟩
  · refine ⟨nofun, ?_⟩
    intro b hb
    exact ⟨b, List.mem_reverse.1 hb, .refl⟩

/-- What is come to from a type of the chain of bases is in it or is an interface. -/
theorem mem_interfaces_of_implements (hnames : r.NamesFew t) (hb : b ∈ r.baseChain t)
    (h : ReflTransGen r.Implements b u) : u ∈ r.baseChain t ∨ u ∈ r.interfaces t := by
  obtain ⟨names, hfew, hnames⟩ := hnames
  -- The search starts with the chain of bases waiting, and nothing seen.
  have hstart : Search.Covering r (r.baseChain t) names (fun _ => False)
      { pending := (r.baseChain t).reverse } := by
    refine ⟨List.nodup_nil, nofun, rfl, nofun, ?_⟩
    intro u hu
    rcases hu with hu | hu
    · exact .inl (List.mem_reverse.2 hu)
    · cases hu
  have hall : Search.All (r.InheritsFrom t) { pending := (r.baseChain t).reverse } := by
    refine ⟨nofun, ?_⟩
    intro u hu
    exact ⟨u, hasBase_of_mem_baseChain (List.mem_reverse.1 hu), .refl⟩
  have hroom : Search.room { pending := (r.baseChain t).reverse } < 2 * Limits.hierarchy + 1 := by
    have hlength := length_baseChain_le (r := r) (t := t)
    unfold Search.room
    rw [List.length_reverse, List.length_nil]
    omega
  have hclosed := hstart.run (fun ht hname hget => ht.implements ⟨_, hname, hget⟩) hnames hfew hall hroom
  -- What is found is closed under interfaces, so that each step stays in it.
  induction h with
  | refl => exact .inl hb
  | tail _ hstep ih => exact .inr (hclosed _ ih _ hstep)

/-! ## §4. Where members are looked for. -/

/-- Types that are added to a chain are in it. -/
theorem mem_foldl_addNew (hr : r.Built) (ht : r.Admits t) {types chain : List TypeDef}
    (hchain : ∀ v ∈ chain, r.KnowsWith t v) (htypes : ∀ v ∈ types, r.KnowsWith t v) :
    u ∈ types.foldl addNew chain ↔ u ∈ chain ∨ u ∈ types := by
  have hknown : ∀ v ∈ types.foldl addNew chain, r.KnowsWith t v := fun v hv =>
    (adds_addNew.mem_or_mem hv).elim (hchain v) (htypes v)
  constructor
  · exact adds_addNew.mem_or_mem
  · rintro (hu | hu)
    · exact (adds_addNew.prefix_foldl chain types).subset hu
    · exact (hr.isAmong_iff ht (htypes u hu) hknown).1 (isAmong_foldl_addNew hu)

/-- Members are looked for in the bases, in the interfaces and in `System.Object`. -/
theorem mem_lookupChain (hr : r.Built) (ht : r.Admits t) :
    u ∈ r.lookupChain t ↔
      u ∈ r.baseChain t ∨ u ∈ r.interfaces t ∨ u = Predefined.objectType := by
  have hknown := inherited_knowsWith (r := r) t
  unfold lookupChain
  rw [r.get?_object, mem_foldl_addNew hr ht (hknown.baseChain (.inl rfl))]
  · simp
  · intro v hv
    rcases List.mem_append.1 hv with hv | hv
    · exact hknown.interfaces (.inl rfl) v hv
    · rw [List.mem_singleton.1 hv]
      exact .inr (knows_of_get? r.get?_object)

/-- **Members are looked for in what the type inherits from**, and in the root. -/
theorem mem_lookupChain_iff (hr : r.Built) (ht : r.Admits t) (hfew : r.ReachesFew t)
    (hnames : r.NamesFew t) :
    u ∈ r.lookupChain t ↔ r.InheritsFrom t u ∨ u = Predefined.objectType := by
  rw [mem_lookupChain hr ht]
  constructor
  · rintro (h | h | h)
    · exact .inl ⟨u, hasBase_of_mem_baseChain h, .refl⟩
    · obtain ⟨b, hb, hinterface⟩ := implements_of_mem_interfaces h
      exact .inl ⟨b, hasBase_of_mem_baseChain hb, hinterface⟩
    · exact .inr h
  · rintro (⟨b, hbase, hinterface⟩ | h)
    -- The base is in the chain, or it is `System.Object`, which is in every chain of lookup.
    · rcases mem_baseChain_of_hasBase hr ht hfew hbase with hb | rfl
      · rcases mem_interfaces_of_implements hnames hb hinterface with h | h
        · exact .inl h
        · exact .inr (.inl h)
      · -- The root has no interfaces.
        rcases hinterface.cases_head with h | ⟨v, hstep, -⟩
        · exact .inr (.inr h.symm)
        · exact absurd (.interface hstep) not_declares_object
    · exact .inr (.inr h)

end TypeAhead.Registry
