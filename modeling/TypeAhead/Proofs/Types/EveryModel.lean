/-
  TypeAhead.Proofs.Types.EveryModel — HIERARCHIES OF ANY MODEL.

  The types of a model are whatever its author wrote: bases and interfaces may name
  each other in cycles, be missing, or be given by keywords.  Every question about
  the hierarchy of a type still has an answer, and a small one.  The chain of bases
  goes on until there is nothing new to come to, the search of interfaces ends with
  nothing left to look at, and no type stands twice where members are looked for.

      Climb.extendChain           the chain of bases, base by base
      Search.ends_run             the search comes to its end
      hierarchy_of_every_model    all of it, for every registry and every type
-/
import Mathlib.Data.List.Chain
import TypeAhead.Proofs.Types.Ancestry
import TypeAhead.Proofs.Types.History

namespace TypeAhead.Registry

open Relation

variable {r : Registry} {t u base last : TypeDef} {name : String}

/-! ## §1. The chain of bases. -/

/-- A chain of different types, from a type to the last one, in which each is followed by its base. -/
structure Climb (r : Registry) (t : TypeDef) (chain : List TypeDef) (last : TypeDef) : Prop where
  head : chain.head? = some t
  last : chain.getLast? = some last
  distinct : chain.Pairwise fun u v => u.same v = false
  based : chain.IsChain r.HasBase

/-- The chain is as long as it may be, or its last type has no base, or has one that is in it. -/
def Complete (r : Registry) (chain : List TypeDef) (last : TypeDef) (bound : Nat) : Prop :=
  r.baseType? last = none ∨ (∃ base, r.baseType? last = some base ∧ base.isAmong chain = true) ∨
    chain.length = bound

theorem climb_singleton (r : Registry) (t : TypeDef) : r.Climb t [t] t :=
  ⟨rfl, rfl, List.pairwise_singleton _ t, List.isChain_singleton t⟩

/-- A type that is not among others is not the same as any of them. -/
theorem same_eq_false_of_not_isAmong {types : List TypeDef} (h : ¬ t.isAmong types = true) (hu : u ∈ types) :
    u.same t = false := by
  rw [Bool.eq_false_iff]
  intro hsame
  exact h (List.any_eq_true.2 ⟨u, hu, TypeDef.same_symm hsame⟩)

/-- A type that is not among different ones makes one more. -/
theorem pairwise_concat {types : List TypeDef} (h : types.Pairwise fun u v => u.same v = false)
    (hnew : ¬ t.isAmong types = true) : (types ++ [t]).Pairwise fun u v => u.same v = false := by
  rw [List.pairwise_append]
  refine ⟨h, List.pairwise_singleton _ t, ?_⟩
  intro u hu v hv
  rw [List.mem_singleton.1 hv]
  exact same_eq_false_of_not_isAmong hnew hu

/-- One base more. -/
theorem Climb.concat {chain : List TypeDef} (h : r.Climb t chain last) (hbase : r.HasBase last base)
    (hnew : ¬ base.isAmong chain = true) : r.Climb t (chain ++ [base]) base := by
  refine ⟨?_, List.getLast?_concat, pairwise_concat h.distinct hnew, ?_⟩
  · rw [List.head?_append, h.head]
    rfl
  · rw [List.isChain_append]
    refine ⟨h.based, List.isChain_singleton base, ?_⟩
    intro u hu v hv
    cases h.last.symm.trans hu
    cases hv
    exact hbase

/-- **The chain of bases goes on until there is nothing new to come to.** -/
theorem Climb.extendChain {chain : List TypeDef} (h : r.Climb t chain last) (budget : Nat) :
    ∃ last', r.Climb t (r.extendChain chain last budget) last' ∧
      r.Complete (r.extendChain chain last budget) last' (chain.length + budget) := by
  induction budget generalizing chain last with
  | zero => exact ⟨last, h, .inr (.inr rfl)⟩
  | succ budget ih =>
    rw [Registry.extendChain]
    split
    · rename_i hnone
      exact ⟨last, h, .inl hnone⟩
    · rename_i base hbase
      split
      · rename_i hamong
        exact ⟨last, h, .inr (.inl ⟨base, hbase, hamong⟩)⟩
      · rename_i hnew
        obtain ⟨last', hclimb, hcomplete⟩ := ih (h.concat hbase hnew)
        refine ⟨last', hclimb, ?_⟩
        rw [List.length_append, List.length_singleton, Nat.add_assoc, Nat.add_comm 1 budget] at hcomplete
        exact hcomplete

/-! ## §2. The search of interfaces. -/

/-- **All that a look at a name can do**: nothing, or find one interface, of which the own interfaces are to be
looked at next. -/
theorem Search.visit_cases (r : Registry) (s : Search) (name : String) :
    ((s.visit r name).found = s.found ∧ (s.visit r name).pending = s.pending) ∨
    ∃ u, r.get? name = some u ∧ s.found.length < Limits.hierarchy ∧
      (s.visit r name).found = s.found ++ [u] ∧ (s.visit r name).pending = u :: s.pending := by
  unfold visit
  split
  · exact .inl ⟨rfl, rfl⟩
  · dsimp only
    split
    · exact .inl ⟨rfl, rfl⟩
    · rename_i hroom
      split
      · exact .inl ⟨rfl, rfl⟩
      · rename_i u hget
        exact .inr ⟨u, hget, Nat.lt_of_not_le hroom, rfl, rfl⟩

/-- A search after one more type was looked at, if there is one to look at. -/
def Search.next? (r : Registry) (s : Search) : Option Search :=
  match s.pending with
  | [] => none
  | t :: pending => some (t.interfaces.foldl (visit r) { s with pending })

/-- The search comes to an end after a number of types, with what it has found by then. -/
inductive Search.Ends (r : Registry) : Search → Nat → List TypeDef → Prop where
  | done {s : Search} (h : s.next? r = none) : Ends r s 0 s.found
  | look {s s' : Search} {count : Nat} {found : List TypeDef} (h : s.next? r = some s')
      (hrest : Ends r s' count found) : Ends r s (count + 1) found

theorem Search.next?_eq_some_iff {s s' : Search} : s.next? r = some s' ↔
    ∃ t pending, s.pending = t :: pending ∧ s' = t.interfaces.foldl (visit r) { s with pending } := by
  unfold next?
  cases s.pending with
  | nil => simp
  | cons t pending => simp [eq_comm]

theorem Search.run_succ (s : Search) (budget : Nat) :
    s.run r (budget + 1) = match s.next? r with
      | none => s.found
      | some s' => s'.run r budget := by
  rw [run]
  unfold next?
  cases s.pending with
  | nil => rfl
  | cons t pending => rfl

theorem Search.room_visitAll_le (names : List String) (s : Search) :
    (names.foldl (visit r) s).room ≤ s.room := by
  induction names generalizing s with
  | nil => exact Nat.le_refl _
  | cons name names ih => exact Nat.le_trans (ih (s.visit r name)) s.room_visit_le

/-- With each type there is less to do. -/
theorem Search.room_next_lt {s s' : Search} (h : s.next? r = some s') : s'.room < s.room := by
  obtain ⟨t, pending, hpending, rfl⟩ := next?_eq_some_iff.1 h
  refine Nat.lt_of_le_of_lt (room_visitAll_le t.interfaces _) ?_
  unfold room
  rw [hpending, List.length_cons]
  exact Nat.add_lt_add_right (Nat.lt_succ_self _) _

/-- **The search comes to an end** before its budget does. -/
theorem Search.ends_run {s : Search} {budget : Nat} (h : s.room < budget) :
    ∃ count ≤ s.room, s.Ends r count (s.run r budget) := by
  induction budget generalizing s with
  | zero => exact absurd h (Nat.not_lt_zero _)
  | succ budget ih =>
    rw [run_succ]
    cases hnext : s.next? r with
    | none => exact ⟨0, Nat.zero_le _, .done hnext⟩
    | some s' =>
      have hless := room_next_lt hnext
      obtain ⟨count, hcount, hends⟩ := ih (Nat.lt_of_lt_of_le hless (Nat.le_of_lt_succ h))
      exact ⟨count + 1, Nat.lt_of_le_of_lt hcount hless, .look hnext hends⟩

/-- A search from some types: what it has found are interfaces that they lead to, not too many, and only the
types and these are pending. -/
structure Search.Sound (r : Registry) (start : List TypeDef) (s : Search) : Prop where
  bounded : s.found.length ≤ Limits.hierarchy
  found : ∀ u ∈ s.found, ∃ b ∈ start, TransGen r.Implements b u
  pending : ∀ u ∈ s.pending, u ∈ start ∨ u ∈ s.found

section

variable {start : List TypeDef} {s : Search}

/-- Whatever is pending, its interfaces are led to. -/
theorem Search.Sound.leads (h : s.Sound r start) (ht : t ∈ start ∨ t ∈ s.found) (hu : r.Implements t u) :
    ∃ b ∈ start, TransGen r.Implements b u := by
  rcases ht with ht | ht
  · exact ⟨t, ht, .single hu⟩
  · obtain ⟨b, hb, hlead⟩ := h.found t ht
    exact ⟨b, hb, hlead.tail hu⟩

theorem Search.Sound.visit (h : s.Sound r start) (ht : t ∈ start ∨ t ∈ s.found)
    (hname : name ∈ t.interfaces) :
    (s.visit r name).Sound r start ∧ s.found ⊆ (s.visit r name).found := by
  rcases s.visit_cases r name with ⟨hfound, hpending⟩ | ⟨u, hget, hroom, hfound, hpending⟩
  · exact ⟨⟨hfound ▸ h.bounded, hfound ▸ h.found, hfound ▸ hpending ▸ h.pending⟩, hfound ▸ List.Subset.refl _⟩
  · refine ⟨⟨?_, ?_, ?_⟩, ?_⟩
    · rw [hfound, List.length_append, List.length_singleton]
      exact hroom
    · rw [hfound]
      exact forall_concat h.found (h.leads ht ⟨name, hname, hget⟩)
    · rw [hfound, hpending]
      intro v hv
      rcases List.mem_cons.1 hv with rfl | hv
      · exact .inr (List.mem_append_right _ List.mem_cons_self)
      · exact (h.pending v hv).imp_right (List.mem_append_left _)
    · rw [hfound]
      exact List.subset_append_left _ _

theorem Search.Sound.visitAll {names : List String} (h : s.Sound r start) (ht : t ∈ start ∨ t ∈ s.found)
    (hnames : ∀ name ∈ names, name ∈ t.interfaces) : (names.foldl (Search.visit r) s).Sound r start := by
  induction names generalizing s with
  | nil => exact h
  | cons name names ih =>
    obtain ⟨hname, hnames⟩ := List.forall_mem_cons.1 hnames
    obtain ⟨hvisit, hmore⟩ := h.visit ht hname
    exact ih hvisit (ht.imp_right (hmore ·)) hnames

theorem Search.Sound.next {s' : Search} (h : s.Sound r start) (hnext : s.next? r = some s') :
    s'.Sound r start := by
  obtain ⟨t, pending, hpending, rfl⟩ := next?_eq_some_iff.1 hnext
  obtain ⟨ht, hrest⟩ := List.forall_mem_cons.1 (hpending ▸ h.pending)
  exact Sound.visitAll ⟨h.bounded, h.found, hrest⟩ ht fun _ hname => hname

/-- **What a search ends with is sound.** -/
theorem Search.Sound.ends {count : Nat} {found : List TypeDef} (h : s.Sound r start)
    (hends : s.Ends r count found) :
    found.length ≤ Limits.hierarchy ∧ ∀ u ∈ found, ∃ b ∈ start, TransGen r.Implements b u := by
  induction hends with
  | done _ => exact ⟨h.bounded, h.found⟩
  | look hnext _ ih => exact ih (h.next hnext)

end

/-! ## §3. Hierarchies of any model. -/

/-- **Hierarchies of any model.**  In every registry, whatever its types declare, and of every type: the
chain of bases starts with the type, holds different types, at most as many as a hierarchy may, each
followed by its base, and ends where there is no base, where the base is in it, or at its bound.  The search
of interfaces comes to its end after at most twice as many types, and ends with at most as many interfaces
as a hierarchy may hold, each of which is declared by a type of the chain or comes from one that is.  Members
are looked for in the chain of bases first, and in all interfaces and the root, and no type is there twice. -/
theorem hierarchy_of_every_model (r : Registry) (t : TypeDef) :
    (∃ last, r.Climb t (r.baseChain t) last ∧ (r.baseChain t).length ≤ Limits.hierarchy ∧
      r.Complete (r.baseChain t) last Limits.hierarchy) ∧
    ((∃ count ≤ 2 * Limits.hierarchy,
        Search.Ends r { pending := (r.baseChain t).reverse } count (r.interfaces t)) ∧
      (r.interfaces t).length ≤ Limits.hierarchy ∧
      ∀ u ∈ r.interfaces t, ∃ b ∈ r.baseChain t, TransGen r.Implements b u) ∧
    (r.baseChain t <+: r.lookupChain t ∧ (∀ u ∈ r.interfaces t, u.isAmong (r.lookupChain t) = true) ∧
      (∃ root, r.get? Known.object = some root ∧ root.isAmong (r.lookupChain t) = true) ∧
      (r.lookupChain t).Pairwise fun u v => u.same v = false) := by
  obtain ⟨last, hclimb, hcomplete⟩ := (climb_singleton r t).extendChain (Limits.hierarchy - 1)
  have hadded : ∀ u ∈ r.interfaces t ++ (r.get? Known.object).toList, u.isAmong (r.lookupChain t) = true :=
    fun u hu => isAmong_foldl_addNew hu
  refine ⟨⟨last, hclimb, length_baseChain_le, hcomplete⟩, ?_, ?_⟩
  -- The measure of the search is at most twice the cap, which is its budget.
  · have hroom : ({ pending := (r.baseChain t).reverse } : Search).room ≤ 2 * Limits.hierarchy := by
      have hlength := length_baseChain_le (r := r) (t := t)
      unfold Search.room
      rw [List.length_reverse, List.length_nil]
      omega
    obtain ⟨count, hcount, hends⟩ := Search.ends_run (r := r) (Nat.lt_succ_of_le hroom)
    have hstart : Search.Sound r (r.baseChain t) { pending := (r.baseChain t).reverse } :=
      ⟨Nat.zero_le _, nofun, fun u hu => .inl (List.mem_reverse.1 hu)⟩
    exact ⟨⟨count, Nat.le_trans hcount hroom, hends⟩, hstart.ends hends⟩
  · refine ⟨r.baseChain_isPrefix t, ?_, ?_, adds_addNew.pairwise_foldl hclimb.distinct⟩
    · intro u hu
      exact hadded u (List.mem_append_left _ hu)
    · refine ⟨Predefined.objectType, get?_object r, hadded _ ?_⟩
      rw [get?_object]
      exact List.mem_append_right _ List.mem_cons_self

/-- Two types that are the base and an interface of each other. -/
example :
    let first : TypeDef := { name := "First", base := some "Second", interfaces := ["Second", "None"] }
    let second : TypeDef := { name := "Second", base := some "First", interfaces := ["First", "First[]"] }
    let r := empty.performAll [.register first, .register second]
    r.baseChain second = [second, first] ∧ r.interfaces second = [second, first, first.array] ∧
      r.lookupChain second = [second, first, first.array, Predefined.objectType] := by
  decide +kernel

end TypeAhead.Registry
