/-
  TypeAhead.Proofs.Types.Finding — WHAT A NAME FINDS.

  A name finds members by its spelling, or without regard to case.  Fields and
  properties are found in one order; methods are added one after the other, unless
  one with the same types of parameters is there.  If what a name finds without
  regard to case is all spelled as the name is, it finds the same in both ways.
  Otherwise a member of another spelling comes first, or joins in.

      findMember?_eq_find?       fields and properties in their order
      Method.mem_foldl_addNew    a method that nothing hides
      FindsSpelled               all that a name finds has its spelling
-/
import TypeAhead.Proofs.Types.Distinct
import TypeAhead.Typing.Sequence

namespace TypeAhead

variable {name : String} {binding : Binding}

/-! ## §1. Names. -/

theorem Text.sameName_refl (ignoreCase : Bool) (name : String) : sameName ignoreCase name name = true := by
  unfold sameName sameWord
  cases ignoreCase <;> simp

/-- A name of the same spelling is the same name without regard to case as well. -/
theorem Text.sameName_of_spelled {a b : String} (h : sameName false a b = true) (ignoreCase : Bool) :
    sameName ignoreCase a b = true := by
  have heq : a = b := by simpa [sameName] using h
  rw [heq]
  exact sameName_refl ignoreCase b

/-! ## §2. Fields and properties. -/

/-- The fields and then the properties of a type that are reached, as they are found. -/
def TypeDef.reached (t : TypeDef) (binding : Binding) : List FoundMember :=
  (t.fields.filter fun m => binding.admits m.isStatic).map (fun m => ⟨m.name, true, m.type, t.fullName⟩) ++
    (t.properties.filter fun m => binding.admits m.isStatic).map
      (fun m => ⟨m.name, false, m.type, t.fullName⟩)

/-- The member that a type has of a name is the first of that name. -/
theorem TypeDef.member?_eq_find? (t : TypeDef) (name : String) (binding : Binding) (ignoreCase : Bool) :
    t.member? name binding ignoreCase =
      (t.reached binding).find? fun m => Text.sameName ignoreCase m.name name := by
  have hfind : ∀ (members : List DataMember) (isField : Bool),
      ((members.filter fun m => binding.admits m.isStatic).map fun m =>
          (⟨m.name, isField, m.type, t.fullName⟩ : FoundMember)).find?
        (fun m => Text.sameName ignoreCase m.name name) =
      (DataMember.find? members name binding ignoreCase).map fun m =>
        ⟨m.name, isField, m.type, t.fullName⟩ := by
    intro members isField
    rw [List.find?_map, List.find?_filter]
    unfold DataMember.find?
    simp only [Function.comp_apply, Bool.decide_and, Bool.decide_eq_true]
  unfold member? reached
  rw [List.find?_append, hfind, hfind]
  cases DataMember.find? t.fields name binding ignoreCase with
  | none => rfl
  | some m => rfl

/-- **A name finds the first member of the name along the chain of lookup.** -/
theorem Registry.findMember?_eq_find? (r : Registry) (t : TypeDef) (name : String) (binding : Binding)
    (ignoreCase : Bool) : r.findMember? t name binding ignoreCase =
      ((r.lookupChain t).flatMap (·.reached binding)).find? fun m =>
        Text.sameName ignoreCase m.name name := by
  unfold findMember?
  simp only [TypeDef.member?_eq_find?]
  rw [← List.find?_flatMap]

/-! ## §3. Methods. -/

namespace Method

variable {m : Method} {methods found near far : List Method}

/-- A method that nothing hides is added. -/
theorem mem_addNew_self (h : found.any (·.sameParameters m) = false) : m ∈ addNew found m := by
  rw [addNew, h]
  exact List.mem_append_right _ List.mem_cons_self

/-- A method is among those found unless one with the same types of parameters was there before it. -/
theorem mem_foldl_addNew (hnear : ∀ g ∈ near, g.sameParameters m = false) :
    m ∈ (near ++ m :: far).foldl addNew [] := by
  rw [List.foldl_append, List.foldl_cons]
  apply (adds_addNew.prefix_foldl _ far).subset
  apply mem_addNew_self
  rw [List.any_eq_false]
  intro g hg
  rcases adds_addNew.mem_or_mem hg with hg | hg
  · cases hg
  · rw [hnear g hg]
    exact Bool.false_ne_true

/-- No method is found only if there is none. -/
theorem foldl_addNew_eq_nil_iff : methods.foldl addNew [] = [] ↔ methods = [] := by
  constructor
  · intro h
    cases methods with
    | nil => rfl
    | cons m rest =>
      have hmem : m ∈ (m :: rest).foldl addNew [] := List.nil_append (m :: rest) ▸ mem_foldl_addNew nofun
      rw [h] at hmem
      cases hmem
  · rintro rfl
    rfl

/-- If all methods that are there in the end pass a test, those that do not were never added. -/
theorem foldl_addNew_filter {p q : Method → Bool} (hpq : ∀ m, p m = true → q m = true)
    (hq : ∀ m ∈ (methods.filter q).foldl addNew found, m ∈ found ∨ p m = true) :
    (methods.filter q).foldl addNew found = (methods.filter p).foldl addNew found := by
  -- Method by method, with those that have been found so far.
  induction methods generalizing found with
  | nil => rfl
  | cons m methods ih =>
    by_cases hm : q m = true
    · rw [List.filter_cons_of_pos hm, List.foldl_cons] at hq ⊢
      by_cases hp : p m = true
      · rw [List.filter_cons_of_pos hp, List.foldl_cons]
        apply ih
        intro g hg
        rcases hq g hg with h | h
        · exact .inl ((adds_addNew.prefix_foldl found [m]).subset h)
        · exact .inr h
      · rw [List.filter_cons_of_neg hp]
        -- It would be there in the end, and so it is not added.
        have hhidden : found.any (·.sameParameters m) = true := by
          cases hnew : found.any (·.sameParameters m) with
          | true => rfl
          | false =>
            have hadded : m ∈ addNew found m := mem_addNew_self hnew
            rcases hq m ((adds_addNew.prefix_foldl _ _).subset hadded) with h | h
            · rw [← hnew, List.any_eq_true]
              exact ⟨m, h, beq_self_eq_true _⟩
            · exact absurd h hp
        have hsame : addNew found m = found := by rw [addNew, if_pos hhidden]
        rw [hsame] at hq ⊢
        exact ih hq
    · have hp : ¬ p m = true := fun hp => hm (hpq m hp)
      rw [List.filter_cons_of_neg hm] at hq ⊢
      rw [List.filter_cons_of_neg hp]
      exact ih hq

end Method

/-! ## §4. With and without regard to case. -/

namespace Registry

variable {r : Registry} {t : TypeDef}

/-- What the name finds without regard to case is spelled as the name is: the methods, if it is to be
called, or else the field or property. -/
def FindsSpelled (r : Registry) (t : TypeDef) (name : String) (binding : Binding) (isCall : Bool) : Prop :=
  if isCall then ∀ m ∈ r.findMethods t name binding true, m.name = name
  else ∀ m, r.findMember? t name binding true = some m → m.name = name

/-- A name that finds a member by its spelling finds one without regard to case. -/
theorem isSome_findMember?_ignoreCase (h : (r.findMember? t name binding false).isSome = true) :
    (r.findMember? t name binding true).isSome = true := by
  rw [findMember?_eq_find?, List.find?_isSome] at h ⊢
  obtain ⟨m, hm, hname⟩ := h
  exact ⟨m, hm, Text.sameName_of_spelled hname true⟩

/-- **A field or property is the same in both ways**, if none of another spelling comes first. -/
theorem FindsSpelled.findMember? (h : r.FindsSpelled t name binding false) {m : FoundMember}
    (hm : r.findMember? t name binding false = some m) : r.findMember? t name binding true = some m := by
  have hspelled : ∀ g, r.findMember? t name binding true = some g → g.name = name := h
  rw [findMember?_eq_find?] at hm hspelled ⊢
  generalize (r.lookupChain t).flatMap (·.reached binding) = members at hm hspelled ⊢
  -- Along the members that are looked at: the first one regardless of case is spelled so.
  induction members with
  | nil => cases hm
  | cons g members ih =>
    simp only [List.find?_cons] at hm hspelled ⊢
    cases hg : Text.sameName true g.name name with
    | true =>
      rw [hg] at hspelled
      have hname : g.name = name := hspelled g rfl
      rw [hname, Text.sameName_refl] at hm
      exact hm
    | false =>
      rw [hg] at hspelled
      cases hname : Text.sameName false g.name name with
      | true => cases hg.symm.trans (Text.sameName_of_spelled hname true)
      | false =>
        rw [hname] at hm
        exact ih hm hspelled

/-- **Methods are the same in both ways**, if none of another spelling joins in. -/
theorem FindsSpelled.findMethods (h : r.FindsSpelled t name binding true) :
    r.findMethods t name binding true = r.findMethods t name binding false := by
  have hspelled : ∀ m ∈ r.findMethods t name binding true, m.name = name := h
  unfold Registry.findMethods TypeDef.methodsOf at hspelled ⊢
  rw [← List.filter_flatMap] at hspelled ⊢
  rw [← List.filter_flatMap]
  -- Regardless of case more are let through, but none of those is in the result.
  apply Method.foldl_addNew_filter
  · intro m hm
    rw [Bool.and_eq_true] at hm ⊢
    exact ⟨hm.1, Text.sameName_of_spelled hm.2 true⟩
  · intro m hm
    right
    have hadmitted : m ∈ ((r.lookupChain t).flatMap TypeDef.methods).filter fun m =>
        binding.admits m.isStatic && Text.sameName true m.name name := by
      rcases Method.adds_addNew.mem_or_mem hm with h | h
      · cases h
      · exact h
    have hboth := (List.mem_filter.1 hadmitted).2
    rw [Bool.and_eq_true] at hboth ⊢
    rw [hspelled m hm]
    exact ⟨hboth.1, Text.sameName_refl false name⟩

/-- A name that finds methods by its spelling finds some without regard to case. -/
theorem findMethods_ignoreCase_ne_nil (h : r.findMethods t name binding false ≠ []) :
    r.findMethods t name binding true ≠ [] := by
  unfold Registry.findMethods at h ⊢
  rw [Ne, Method.foldl_addNew_eq_nil_iff, List.flatMap_eq_nil_iff] at h ⊢
  intro hnone
  apply h
  intro owner howner
  have hempty := hnone owner howner
  unfold TypeDef.methodsOf at hempty ⊢
  rw [List.filter_eq_nil_iff] at hempty ⊢
  intro m hm hboth
  rw [Bool.and_eq_true] at hboth
  apply hempty m hm
  rw [Bool.and_eq_true]
  exact ⟨hboth.1, Text.sameName_of_spelled hboth.2 true⟩

end Registry

/-- **The operators of sequences have names that differ without regard to case.** -/
theorem SequenceOperator.ofName?_ignoreCase {o : SequenceOperator} (h : ofName? name false = some o) :
    ofName? name true = some o := by
  have hdistinct : ∀ entry ∈ names, ofName? entry.1 true = some entry.2 := by decide +kernel
  obtain ⟨entry, hentry, rfl⟩ := Option.map_eq_some_iff.1 h
  have hname : entry.1 = name := by
    have hsame := List.find?_some hentry
    simpa [Text.sameName] using hsame
  rw [← hname]
  exact hdistinct entry (List.mem_of_find?_eq_some hentry)

end TypeAhead
