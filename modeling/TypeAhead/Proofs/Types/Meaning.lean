/-
  TypeAhead.Proofs.Types.Meaning — WHICH NAMES KEEP THEIR MEANING.

  A name means a type by its full name, or by a keyword, or it is either of these
  with `[]` behind it.  Full names are unique and cannot look like arrays, so a type
  that is registered takes no full name from another one.  Nothing keeps it from
  having a keyword for its full name, though, and from then on the keyword means
  that type.  Those are all names that can ever change their meaning.

      get?_register                 what names mean with one more type
      register_conservative_iff     when all names keep their meaning
      get?_performAll               the same for any number of calls
-/
import TypeAhead.Proofs.Types.History

namespace TypeAhead.Registry

variable {r r' : Registry} {t u : TypeDef} {name : String}

/-! ## §1. Names of arrays. -/

/-- A name without the `[]` at its end. -/
def stem (name : String) : String := String.ofList (arrayRank name.toList.reverse).2.reverse

/-- How often `[]` stands at the end of a name. -/
def rank (name : String) : Nat := (arrayRank name.toList.reverse).1

theorem stem_of_rank_eq_zero (h : rank name = 0) : stem name = name := by
  unfold stem
  rw [arrayRank_eq_zero h, List.reverse_reverse, String.ofList_toList]

/-- **A name means an array of what is left of it without `[]`.** -/
theorem get?_eq (r : Registry) (name : String) :
    r.get? name = (r.ofName? (stem name)).map (TypeDef.arrayOfRank · (rank name)) := by
  unfold Catalog.get?
  dsimp only
  split
  · rename_i hrank
    have hrank : rank name = 0 := hrank
    rw [stem_of_rank_eq_zero hrank, hrank]
    exact Option.map_id'.symm
  · rfl

/-- Types of which the arrays have one name have one name. -/
theorem fullName_eq_of_arrayOfRank {k : Nat}
    (h : (t.arrayOfRank k).fullName = (u.arrayOfRank k).fullName) : t.fullName = u.fullName := by
  induction k with
  | zero => exact h
  | succ k ih =>
    apply ih
    have harray : (t.arrayOfRank k).fullName ++ "[]" = (u.arrayOfRank k).fullName ++ "[]" := by
      rw [← TypeDef.fullName_array, ← TypeDef.fullName_array]
      exact h
    exact (String.append_left_inj "[]").1 harray

/-! ## §2. One type more. -/

/-- What a full name means with one type more. -/
theorem ofFullName?_register (h : r.register t = .ok r') (name : String) :
    r'.ofFullName? name = if name = t.fullName then some t else r.ofFullName? name := by
  obtain ⟨hnew, -, rfl⟩ := register_eq_ok_iff.1 h
  exact ofFullName?_add hnew name

/-- A keyword stands for the full name of a predefined type, in every registry. -/
theorem exists_of_keyword {full : String} (h : Known.ofKeyword? name = some full) :
    ∃ u : TypeDef, u.fullName = full ∧ ∀ r : Registry, r.ofFullName? full = some u := by
  have hall : ∀ entry ∈ Known.keywords, (predefinedNamed.lookup entry.2).map TypeDef.fullName = some entry.2 := by
    decide +kernel
  obtain ⟨u, hu, hname⟩ := Option.map_eq_some_iff.1 (hall (name, full) (mem_of_lookup h))
  refine ⟨u, hname, fun r => ?_⟩
  rw [ofFullName?_eq_or, hu]
  rfl

/-- What a full name or a keyword means with one type more. -/
theorem ofName?_register (h : r.register t = .ok r') (name : String) :
    r'.ofName? name = if name = t.fullName then some t else r.ofName? name := by
  unfold Catalog.ofName?
  rw [ofFullName?_register h]
  by_cases hname : name = t.fullName
  · rw [if_pos hname, if_pos hname]
  · rw [if_neg hname, if_neg hname]
    -- The keyword, if the name is one, stands for the same type as before.
    have hkeyword : (Known.ofKeyword? name).bind r'.ofFullName? = (Known.ofKeyword? name).bind r.ofFullName? := by
      cases hfull : Known.ofKeyword? name with
      | none => rfl
      | some full =>
        obtain ⟨u, -, hu⟩ := exists_of_keyword hfull
        exact (hu r').trans (hu r).symm
    rw [hkeyword]

/-- **What names mean with one type more**: the type, if the name is its full name, and arrays of the type, if
there is `[]` behind it; all other names mean what they meant. -/
theorem get?_register (h : r.register t = .ok r') (name : String) :
    r'.get? name = if stem name = t.fullName then some (t.arrayOfRank (rank name)) else r.get? name := by
  rw [get?_eq, get?_eq, ofName?_register h]
  by_cases hname : stem name = t.fullName
  · rw [if_pos hname, if_pos hname]
    rfl
  · rw [if_neg hname, if_neg hname]

/-- What a name means that the type takes: the type that a keyword stands for, or nothing. -/
theorem get?_of_new (hnew : r.ofFullName? t.fullName = none) (hname : stem name = t.fullName) :
    r.get? name = ((Known.ofKeyword? t.fullName).bind r.ofFullName?).map (TypeDef.arrayOfRank · (rank name)) := by
  rw [get?_eq, hname]
  unfold Catalog.ofName?
  rw [hnew]

/-- A name that the type takes means something else now, if it meant anything. -/
theorem get?_register_ne (h : r.register t = .ok r') (hname : stem name = t.fullName)
    (hu : r.get? name = some u) : r'.get? name ≠ some u := by
  obtain ⟨hnew, -, -⟩ := register_eq_ok_iff.1 h
  rw [get?_register h, if_pos hname]
  intro heq
  rw [get?_of_new hnew hname] at hu
  obtain ⟨element, helement, rfl⟩ := Option.map_eq_some_iff.1 hu
  obtain ⟨full, hfull, helement⟩ := Option.bind_eq_some_iff.1 helement
  obtain ⟨v, hname', hv⟩ := exists_of_keyword hfull
  cases (hv r).symm.trans helement
  -- The full name of the type would have been taken.
  have htaken : t.fullName = full := (fullName_eq_of_arrayOfRank (congrArg TypeDef.fullName
    (Option.some.inj heq))).trans hname'
  rw [htaken, hv r] at hnew
  cases hnew

/-- Of a name that means something, the meaning is kept exactly if the type does not take the name. -/
theorem get?_register_eq_some_iff (h : r.register t = .ok r') (hu : r.get? name = some u) :
    r'.get? name = some u ↔ stem name ≠ t.fullName := by
  constructor
  · intro hu' hname
    exact get?_register_ne h hname hu hu'
  · intro hname
    rw [get?_register h, if_neg hname]
    exact hu

/-- A type that is not called like a keyword takes no name that means something. -/
theorem get?_register_of_some (h : r.register t = .ok r') (hfree : Known.ofKeyword? t.fullName = none)
    (hu : r.get? name = some u) : r'.get? name = some u := by
  refine (get?_register_eq_some_iff h hu).2 fun hname => ?_
  obtain ⟨hnew, -, -⟩ := register_eq_ok_iff.1 h
  rw [get?_of_new hnew hname, hfree] at hu
  cases hu

/-- A type that is called like a keyword takes it. -/
theorem exists_get?_register_ne {full : String} (h : r.register t = .ok r')
    (hkeyword : Known.ofKeyword? t.fullName = some full) :
    ∃ u, r.get? t.fullName = some u ∧ r'.get? t.fullName ≠ some u := by
  obtain ⟨hnew, hplain, -⟩ := register_eq_ok_iff.1 h
  obtain ⟨u, -, hu⟩ := exists_of_keyword hkeyword
  have hname : stem t.fullName = t.fullName := stem_of_rank_eq_zero hplain
  have hget := get?_of_new hnew hname
  rw [hkeyword, Option.bind_some, hu r] at hget
  exact ⟨_, hget, get?_register_ne h hname hget⟩

/-! ## §3. When names keep their meaning. -/

/-- **Which names keep their meaning.**  When a type is registered, a name that is its full name, with `[]`
behind it or not, means the type or an array of it, and every other name means what it meant, be it a type
or nothing.  So all names that mean something keep their meaning exactly if the full name of the type is no
keyword; otherwise the names that lose it are the keyword and its arrays. -/
theorem register_conservative_iff (h : r.register t = .ok r') :
    ((∀ name u, r.get? name = some u → r'.get? name = some u) ↔ Known.ofKeyword? t.fullName = none) ∧
    (∀ name u, r.get? name = some u → (r'.get? name = some u ↔ stem name ≠ t.fullName)) ∧
    (∀ name, r'.get? name =
      if stem name = t.fullName then some (t.arrayOfRank (rank name)) else r.get? name) := by
  refine ⟨⟨?_, ?_⟩, fun name u => get?_register_eq_some_iff h, get?_register h⟩
  · intro hall
    cases hkeyword : Known.ofKeyword? t.fullName with
    | none => rfl
    | some full =>
      obtain ⟨u, hu, hne⟩ := exists_get?_register_ne h hkeyword
      exact absurd (hall _ u hu) hne
  · exact fun hfree name u => get?_register_of_some h hfree

/-- The keyword of an integer type is taken, and with it the name of the arrays of that type. -/
theorem register_conservative_iff_of_keyword :
    ∃ r', Registry.empty.register { name := "int" } = .ok r' ∧
      (∃ u, Registry.empty.get? "int[]" = some u ∧ u.fullName = "System.Int32[]" ∧ r'.get? "int[]" ≠ some u) ∧
      r'.get? "int[]" = some (TypeDef.array { name := "int" }) ∧
      ¬ ∀ name u, Registry.empty.get? name = some u → r'.get? name = some u := by
  have hregister : Registry.empty.register { name := "int" } = .ok (Registry.empty.add { name := "int" } (by rfl)) :=
    register_eq_ok_iff.2 ⟨by rfl, by decide, rfl⟩
  obtain ⟨hiff, hkept, hnow⟩ := register_conservative_iff hregister
  have hstem : stem "int[]" = "int" := by decide +kernel
  obtain ⟨u, hu, hname⟩ : ∃ u, Registry.empty.get? "int[]" = some u ∧ u.fullName = "System.Int32[]" :=
    ⟨_, by rfl, by decide +kernel⟩
  refine ⟨_, hregister, ⟨u, hu, hname, fun hu' => (hkept _ u hu).1 hu' hstem⟩, ?_, ?_⟩
  · exact (hnow "int[]").trans ((if_pos hstem).trans rfl)
  · intro hall
    cases (hiff.1 hall).symm.trans (by decide : Known.ofKeyword? "int" = some Known.int32)

/-- **Whatever is called, names keep their meaning**, as long as no type is registered that has a keyword for
its full name. -/
theorem get?_performAll {calls : List Catalog.Call}
    (hfree : ∀ t ∈ r.registered calls, Known.ofKeyword? t.fullName = none) (h : r.get? name = some u) :
    (r.performAll calls).get? name = some u := by
  -- By induction on the calls, from any registry on, as each call leaves another one.
  induction calls generalizing r with
  | nil => exact h
  | cons call calls ih =>
    rw [Catalog.registered] at hfree
    refine ih (r := r.after call) (fun t ht => hfree t (List.mem_append_right _ ht)) ?_
    rcases r.after_cases call with ⟨heq, -⟩ | ⟨t, hregister, hcall⟩ | ⟨t, other, hexpose, -⟩
    · rw [heq]
      exact h
    · rw [hcall] at hfree
      exact get?_register_of_some hregister (hfree t (List.mem_append_left _ List.mem_cons_self)) h
    · -- To expose a type is no matter of names.
      obtain ⟨-, heq⟩ := expose_eq_ok_iff.1 hexpose
      rw [heq]
      split
      · exact h
      · exact h

end TypeAhead.Registry
