/-
  TypeAhead.Proofs.Types.Distinct — WHAT IS ADDED ONLY IF IT IS NEW.

  The types where members are looked for, the methods of a name and the names of a
  completion are collected in the same way.  One after the other is put at the end,
  unless there is one already that it does not differ from.  So they stay in order,
  any two of them differ, and what is missing does not differ from one that is there.

      Adds.foldl_eq           what is added later comes later
      Adds.pairwise_foldl     any two differ
      Adds.exists_of_mem      what is missing
-/
import TypeAhead.Types.Member

namespace TypeAhead

variable {α : Type} {Differ : α → α → Prop} {add : List α → α → List α} {found xs : List α} {x : α}

/-- An element is put at the end, unless there is one that it does not differ from. -/
def Adds (Differ : α → α → Prop) (add : List α → α → List α) : Prop :=
  ∀ found x, (add found x = found ∧ ∃ y ∈ found, ¬ Differ y x) ∨
    (add found x = found ++ [x] ∧ ∀ y ∈ found, Differ y x)

namespace Adds

/-- **What is added later comes later**: of more elements those that are new, in their order. -/
theorem foldl_eq (h : Adds Differ add) (found xs : List α) :
    ∃ rest, xs.foldl add found = found ++ rest ∧ rest.Sublist xs := by
  induction xs generalizing found with
  | nil => exact ⟨[], (List.append_nil found).symm, List.Sublist.slnil⟩
  | cons x xs ih =>
    rw [List.foldl_cons]
    rcases h found x with ⟨hsame, -⟩ | ⟨hadded, -⟩
    · obtain ⟨rest, heq, hrest⟩ := ih found
      rw [hsame]
      exact ⟨rest, heq, hrest.cons x⟩
    · obtain ⟨rest, heq, hrest⟩ := ih (found ++ [x])
      rw [hadded, heq, List.append_assoc]
      exact ⟨x :: rest, rfl, hrest.cons_cons x⟩

/-- What is there stays there. -/
theorem prefix_foldl (h : Adds Differ add) (found xs : List α) : found <+: xs.foldl add found := by
  obtain ⟨rest, heq, -⟩ := h.foldl_eq found xs
  exact ⟨rest, heq.symm⟩

/-- Only what is added is there in the end. -/
theorem mem_or_mem (h : Adds Differ add) (hx : x ∈ xs.foldl add found) : x ∈ found ∨ x ∈ xs := by
  obtain ⟨rest, heq, hrest⟩ := h.foldl_eq found xs
  rw [heq] at hx
  exact (List.mem_append.1 hx).imp_right fun hx => hrest.subset hx

/-- **Any two that are there differ.** -/
theorem pairwise_foldl (h : Adds Differ add) (hfound : found.Pairwise Differ) :
    (xs.foldl add found).Pairwise Differ := by
  -- By induction on what is added: an element that is new differs from all that are there.
  induction xs generalizing found with
  | nil => exact hfound
  | cons x xs ih =>
    apply ih
    rcases h found x with ⟨hsame, -⟩ | ⟨hadded, hnew⟩
    · rwa [hsame]
    · rw [hadded, List.pairwise_append]
      refine ⟨hfound, List.pairwise_singleton _ x, ?_⟩
      intro y hy z hz
      rw [List.mem_singleton.1 hz]
      exact hnew y hy

/-- **Nothing is missing but what does not differ.** -/
theorem exists_of_mem (h : Adds Differ add) (hself : ¬ Differ x x) (hx : x ∈ xs) :
    ∃ y ∈ xs.foldl add found, ¬ Differ y x := by
  induction xs generalizing found with
  | nil => cases hx
  | cons z xs ih =>
    rcases List.mem_cons.1 hx with rfl | hx
    · have hthere : ∃ y ∈ add found x, ¬ Differ y x := by
        rcases h found x with ⟨hsame, hold⟩ | ⟨hadded, -⟩
        · rwa [hsame]
        · exact ⟨x, hadded ▸ List.mem_append_right _ List.mem_cons_self, hself⟩
      obtain ⟨y, hy, hold⟩ := hthere
      exact ⟨y, (h.prefix_foldl _ xs).subset hy, hold⟩
    · exact ih hx

end Adds

/-- Two types are told apart by their names. -/
theorem Registry.adds_addNew : Adds (fun t u : TypeDef => t.same u = false) addNew := by
  intro chain t
  unfold addNew TypeDef.isAmong
  by_cases h : chain.any t.same = true
  · obtain ⟨u, hu, hsame⟩ := List.any_eq_true.1 h
    rw [if_pos h]
    exact .inl ⟨rfl, u, hu, by simp [TypeDef.same_symm hsame]⟩
  · rw [if_neg h]
    refine .inr ⟨rfl, fun u hu => Bool.eq_false_iff.2 fun hsame => h ?_⟩
    exact List.any_eq_true.2 ⟨u, hu, TypeDef.same_symm hsame⟩

/-- Two methods of one name are told apart by the types of their parameters. -/
theorem Method.adds_addNew : Adds (fun g m : Method => g.sameParameters m = false) addNew := by
  intro methods m
  unfold addNew
  by_cases h : methods.any (·.sameParameters m) = true
  · obtain ⟨g, hg, hsame⟩ := List.any_eq_true.1 h
    rw [if_pos h]
    exact .inl ⟨rfl, g, hg, by simp [hsame]⟩
  · rw [if_neg h]
    exact .inr ⟨rfl, fun g hg => Bool.eq_false_iff.2 fun hsame => h (List.any_eq_true.2 ⟨g, hg, hsame⟩)⟩

theorem MemberNames.adds_addNew : Adds (fun a b : String => a ≠ b) addNew := by
  intro names name
  unfold addNew
  by_cases h : names.contains name = true
  · rw [if_pos h]
    exact .inl ⟨rfl, name, List.contains_iff_mem.1 h, fun hne => hne rfl⟩
  · rw [if_neg h]
    exact .inr ⟨rfl, fun other hother heq => h (List.contains_iff_mem.2 (heq ▸ hother))⟩

end TypeAhead
