/-
  TypeAhead.Proofs.Typing.Overloads — WHICH OVERLOAD IS CALLED.

  The methods of a name are collected along the chain of lookup, and a method is
  hidden if one before it has the same types of parameters.  Of those that are left
  the arguments choose one: the first of those that have the exact type in the
  largest number of parameters.  A literal converts to every number, so that many
  overloads can be called with it; still the one that is declared for its own type
  wins, wherever it stands.

      Method.foldl_addNew_append      hidden methods leave the others in their order
      applicability_eq_length_iff     the highest score is that of exact parameters
      selectOverload_of_exact         the first candidate with exact parameters wins
      exact_overload_wins             what a call finds, and what it calls
-/
import Mathlib.Data.List.Forall2
import TypeAhead.Proofs.Types.Finding
import TypeAhead.Proofs.Types.History
import TypeAhead.Typing.Operand

namespace TypeAhead

/-! ## §1. Hidden methods. -/

namespace Method

variable {methods found near far : List Method} {m g : Method}

/-- **What is added later comes later**: of more methods, those that are not hidden, in their order. -/
theorem foldl_addNew_append (found near far : List Method) :
    ∃ rest, (near ++ far).foldl addNew found = near.foldl addNew found ++ rest ∧ rest.Sublist far := by
  rw [List.foldl_append]
  exact adds_addNew.foldl_eq _ far

/-- Methods are found in the order in which they are declared. -/
theorem foldl_addNew_sublist (methods : List Method) : (methods.foldl addNew []).Sublist methods := by
  obtain ⟨rest, heq, hrest⟩ := foldl_addNew_append [] [] methods
  rw [List.nil_append] at heq
  rw [heq]
  exact hrest

/-- A method that none before it hides stays where it is. -/
theorem foldl_addNew_of_unhidden (far : List Method) (hnear : ∀ g ∈ near, g.sameParameters m = false) :
    ∃ before after, (near ++ m :: far).foldl addNew [] = before ++ m :: after ∧
      before.Sublist near ∧ after.Sublist far := by
  have hnew : (near.foldl addNew []).any (·.sameParameters m) = false := by
    rw [List.any_eq_false]
    intro g hg
    rw [hnear g ((foldl_addNew_sublist near).subset hg)]
    exact Bool.false_ne_true
  obtain ⟨after, heq, hafter⟩ := foldl_addNew_append [] (near ++ [m]) far
  refine ⟨near.foldl addNew [], after, ?_, foldl_addNew_sublist near, hafter⟩
  have hadded : (near ++ [m]).foldl addNew [] = near.foldl addNew [] ++ [m] := by
    rw [List.foldl_append, List.foldl_cons, List.foldl_nil, addNew, hnew]
    rfl
  rw [List.append_cons, heq, hadded, List.append_assoc]
  rfl

end Method

/-- The operand is a value or an integer literal: neither null nor a discard. -/
def Operand.IsValue (a : Operand) : Prop := a.form = .plain ∨ a.form = .integer

namespace Registry

variable {r : Registry} {parameters : List Parameter} {arguments : List Operand} {α : Type}

/-! ## §2. Scores. -/

/-- The arguments convert to what the types of the parameters mean, one to one. -/
def Applies (r : Registry) (parameters : List Parameter) (arguments : List Operand) : Prop :=
  List.Forall₂ (fun p a => (r.get? p.type).any (r.converts a) = true) parameters arguments

/-- The types of the parameters mean those of the arguments, one to one. -/
def Exact (r : Registry) (parameters : List Parameter) (arguments : List Operand) : Prop :=
  List.Forall₂ (fun p a => (r.get? p.type).any a.type.same = true) parameters arguments

instance (r : Registry) (parameters : List Parameter) (arguments : List Operand) :
    Decidable (r.Applies parameters arguments) :=
  inferInstanceAs (Decidable (List.Forall₂ _ _ _))

instance (r : Registry) (parameters : List Parameter) (arguments : List Operand) :
    Decidable (r.Exact parameters arguments) :=
  inferInstanceAs (Decidable (List.Forall₂ _ _ _))

/-- Whether an argument counts for the score: it is a value and has exactly the type of the parameter. -/
def countsFor (a : Operand) (target : TypeDef) : Bool :=
  (a.form == .plain || a.form == .integer) && a.type.same target

/-- **What a score says of the first argument**: it converts, and it counts or not. -/
theorem applicability_cons_iff {p : Parameter} {a : Operand} {score : Nat} :
    r.applicability (p :: parameters) (a :: arguments) = some score ↔
      ∃ target rest, r.get? p.type = some target ∧ r.converts a target = true ∧
        r.applicability parameters arguments = some rest ∧ score = rest + (countsFor a target).toNat := by
  rw [applicability]
  constructor
  · intro h
    -- The target has to be known and the argument has to convert, or nothing applies.
    split at h
    · cases h
    · rename_i target hget
      dsimp only at h
      split at h
      · rename_i hconverts
        obtain ⟨rest, hrest, rfl⟩ := Option.map_eq_some_iff.1 h
        exact ⟨target, rest, hget, hconverts, hrest, rfl⟩
      · cases h
  · rintro ⟨target, rest, hget, hconverts, hrest, rfl⟩
    rw [hget]
    dsimp only
    rw [if_pos hconverts, hrest]
    rfl

/-- A candidate has a score if the arguments convert to its parameters. -/
theorem isSome_applicability_iff :
    (r.applicability parameters arguments).isSome = true ↔ r.Applies parameters arguments := by
  unfold Applies
  induction parameters generalizing arguments with
  | nil => cases arguments <;> simp [applicability]
  | cons p parameters ih =>
    cases arguments with
    | nil => simp [applicability]
    | cons a arguments =>
      rw [List.forall₂_cons, ← ih, Option.isSome_iff_exists]
      constructor
      · rintro ⟨score, hscore⟩
        obtain ⟨target, rest, hget, hconverts, hrest, -⟩ := applicability_cons_iff.1 hscore
        rw [hget, hrest]
        exact ⟨hconverts, rfl⟩
      · rintro ⟨hfirst, hrest⟩
        obtain ⟨rest, hrest⟩ := Option.isSome_iff_exists.1 hrest
        obtain ⟨target, hget, hconverts⟩ := (Option.any_eq_true _ _).1 hfirst
        exact ⟨_, applicability_cons_iff.2 ⟨target, rest, hget, hconverts, hrest, rfl⟩⟩

/-- **The score is at most the number of arguments.** -/
theorem applicability_le {score : Nat} (h : r.applicability parameters arguments = some score) :
    score ≤ arguments.length := by
  induction parameters generalizing arguments score with
  | nil =>
    cases arguments with
    | nil =>
      cases h
      exact Nat.le_refl 0
    | cons a arguments => cases h
  | cons p parameters ih =>
    cases arguments with
    | nil => cases h
    | cons a arguments =>
      obtain ⟨target, rest, -, -, hrest, rfl⟩ := applicability_cons_iff.1 h
      exact Nat.add_le_add (ih hrest) (Bool.toNat_le (countsFor a target))

/-- A value counts for its own type, and converts to it. -/
theorem countsFor_of_isValue {a : Operand} {target : TypeDef} (ha : a.IsValue) :
    countsFor a target = a.type.same target := by
  unfold countsFor
  rcases ha with hform | hform
  · rw [hform]
    rfl
  · rw [hform]
    rfl

theorem converts_of_same {a : Operand} {target : TypeDef} (ha : a.IsValue)
    (hsame : a.type.same target = true) : r.converts a target = true := by
  unfold converts
  rcases ha with hform | hform
  · rw [hform]
    simp [hsame]
  · rw [hform]
    simp [hsame]

/-- **The highest score is that of exact parameters.** -/
theorem applicability_eq_length_iff (hvalues : ∀ a ∈ arguments, a.IsValue) :
    r.applicability parameters arguments = some arguments.length ↔ r.Exact parameters arguments := by
  unfold Exact
  -- By induction on the parameters, against the arguments one by one.
  induction parameters generalizing arguments with
  | nil => cases arguments <;> simp [applicability]
  | cons p parameters ih =>
    cases arguments with
    | nil => simp [applicability]
    | cons a arguments =>
      obtain ⟨ha, hvalues⟩ := List.forall_mem_cons.1 hvalues
      rw [List.forall₂_cons, ← ih hvalues, applicability_cons_iff, List.length_cons]
      constructor
      · rintro ⟨target, rest, hget, -, hrest, hscore⟩
        -- No argument but this one can make up for it if it does not count.
        have hle := applicability_le hrest
        have hcount := Bool.toNat_le (countsFor a target)
        have hone : (countsFor a target).toNat = 1 := by omega
        have hall : rest = arguments.length := by omega
        rw [countsFor_of_isValue ha, Bool.toNat_eq_one] at hone
        rw [hget, hrest, hall]
        exact ⟨hone, rfl⟩
      · rintro ⟨hfirst, hrest⟩
        obtain ⟨target, hget, hsame⟩ := (Option.any_eq_true _ _).1 hfirst
        refine ⟨target, arguments.length, hget, converts_of_same ha hsame, hrest, ?_⟩
        rw [countsFor_of_isValue ha, hsame]
        rfl

/-! ## §3. The best candidate. -/

/-- A candidate stays the best one if no other has a higher score. -/
theorem foldl_better_of_le {best : Nat × α} {scored : List (Nat × α)} (h : ∀ c ∈ scored, c.1 ≤ best.1) :
    scored.foldl better (some best) = some best := by
  induction scored with
  | nil => rfl
  | cons c scored ih =>
    obtain ⟨hc, hrest⟩ := List.forall_mem_cons.1 h
    rw [List.foldl_cons, better, if_neg (Nat.not_lt.2 hc)]
    exact ih hrest

/-- The best one is one of the candidates. -/
theorem mem_of_foldl_better {best : Option (Nat × α)} {c : Nat × α} {scored : List (Nat × α)}
    (h : scored.foldl better best = some c) : best = some c ∨ c ∈ scored := by
  induction scored generalizing best with
  | nil => exact .inl h
  | cons d scored ih =>
    rcases ih h with hbest | hmem
    · unfold better at hbest
      split at hbest
      · split at hbest
        · cases hbest
          exact .inr List.mem_cons_self
        · exact .inl hbest
      · cases hbest
        exact .inr List.mem_cons_self
    · exact .inr (List.mem_cons_of_mem d hmem)

/-- There is a best one if there is any. -/
theorem foldl_better_eq_none_iff {best : Option (Nat × α)} {scored : List (Nat × α)} :
    scored.foldl better best = none ↔ best = none ∧ scored = [] := by
  induction scored generalizing best with
  | nil => simp
  | cons c scored ih =>
    have hsome : better best c ≠ none := by
      unfold better
      split
      · split <;> exact nofun
      · exact nofun
    rw [List.foldl_cons, ih]
    simp [hsome]

/-- **The first candidate of the highest score is the best one.** -/
theorem foldl_better_of_first {c : Nat × α} {near far : List (Nat × α)} (hnear : ∀ d ∈ near, d.1 < c.1)
    (hfar : ∀ d ∈ far, d.1 ≤ c.1) : (near ++ c :: far).foldl better none = some c := by
  have hc : better (near.foldl better none) c = some c := by
    cases hbest : near.foldl better none with
    | none => rfl
    | some best =>
      rcases mem_of_foldl_better hbest with h | h
      · cases h
      · exact if_pos (hnear best h)
  rw [List.foldl_append, List.foldl_cons, hc]
  exact foldl_better_of_le hfar

/-! ## §4. The overload that is called. -/

/-- A candidate with its score, if it has one. -/
def scored? (r : Registry) (arguments : List Operand) (candidate : List Parameter × α) : Option (Nat × α) :=
  (r.applicability candidate.1 arguments).map fun score => (score, candidate.2)

theorem scored?_eq_some_iff {candidate : List Parameter × α} {c : Nat × α} :
    r.scored? arguments candidate = some c ↔
      r.applicability candidate.1 arguments = some c.1 ∧ candidate.2 = c.2 := by
  unfold scored?
  rw [Option.map_eq_some_iff]
  constructor
  · rintro ⟨score, hscore, rfl⟩
    exact ⟨hscore, rfl⟩
  · rintro ⟨hscore, heq⟩
    exact ⟨c.1, hscore, by rw [heq]⟩

theorem selectOverload_eq (r : Registry) (candidates : List (List Parameter × α)) (arguments : List Operand) :
    r.selectOverload candidates arguments =
      ((candidates.filterMap (r.scored? arguments)).foldl better none).map Prod.snd := rfl

/-- The overload that is called is one of the candidates. -/
theorem mem_of_selectOverload {candidates : List (List Parameter × α)} {candidate : α}
    (h : r.selectOverload candidates arguments = some candidate) :
    ∃ parameters, (parameters, candidate) ∈ candidates := by
  rw [selectOverload_eq] at h
  obtain ⟨best, hbest, rfl⟩ := Option.map_eq_some_iff.1 h
  rcases mem_of_foldl_better hbest with hnone | hmem
  · cases hnone
  · obtain ⟨c, hc, hscored⟩ := List.mem_filterMap.1 hmem
    obtain ⟨-, hsame⟩ := scored?_eq_some_iff.1 hscored
    exact ⟨c.1, hsame ▸ hc⟩

/-- **Nothing is called exactly if the arguments go with no candidate.** -/
theorem selectOverload_eq_none_iff {candidates : List (List Parameter × α)} :
    r.selectOverload candidates arguments = none ↔ ∀ c ∈ candidates, ¬ r.Applies c.1 arguments := by
  rw [selectOverload_eq, Option.map_eq_none_iff, foldl_better_eq_none_iff, List.filterMap_eq_nil_iff]
  simp only [true_and, scored?, Option.map_eq_none_iff, ← isSome_applicability_iff, Option.not_isSome_iff_eq_none]

/-- **The first candidate with exact parameters is called**, whatever else there is. -/
theorem selectOverload_of_exact (hvalues : ∀ a ∈ arguments, a.IsValue)
    {near far : List (List Parameter × α)} {candidate : α} (hexact : r.Exact parameters arguments)
    (hnear : ∀ c ∈ near, ¬ r.Exact c.1 arguments) :
    r.selectOverload (near ++ (parameters, candidate) :: far) arguments = some candidate := by
  -- All arguments count, which is the highest score there is.
  have hscore := (applicability_eq_length_iff hvalues).2 hexact
  have hscored : r.scored? arguments (parameters, candidate) = some (arguments.length, candidate) :=
    scored?_eq_some_iff.2 ⟨hscore, rfl⟩
  rw [selectOverload_eq, List.filterMap_append, List.filterMap_cons_some hscored,
    foldl_better_of_first, Option.map_some]
  · -- A score below the highest one, as the parameters are not exact.
    intro d hd
    obtain ⟨c, hc, hcd⟩ := List.mem_filterMap.1 hd
    obtain ⟨hd, -⟩ := scored?_eq_some_iff.1 hcd
    refine Nat.lt_of_le_of_ne (applicability_le hd) ?_
    intro heq
    rw [show d.1 = arguments.length from heq] at hd
    exact hnear c hc ((applicability_eq_length_iff hvalues).1 hd)
  · intro d hd
    obtain ⟨c, -, hcd⟩ := List.mem_filterMap.1 hd
    exact applicability_le (scored?_eq_some_iff.1 hcd).1

/-- The first of some elements that have a property. -/
theorem exists_first {β : Type} {p : β → Prop} [DecidablePred p] {l : List β} (h : ∃ b ∈ l, p b) :
    ∃ near b far, l = near ++ b :: far ∧ p b ∧ ∀ c ∈ near, ¬ p c := by
  obtain ⟨b, hb, hpb⟩ := h
  have hfound : (l.find? fun b => decide (p b)).isSome = true :=
    List.find?_isSome.2 ⟨b, hb, decide_eq_true hpb⟩
  obtain ⟨first, hfirst⟩ := Option.isSome_iff_exists.1 hfound
  obtain ⟨hp, near, far, heq, hnear⟩ := List.find?_eq_some_iff_append.1 hfirst
  refine ⟨near, first, far, heq, of_decide_eq_true hp, ?_⟩
  intro c hc
  simpa using hnear c hc

/-- **Exact overloads win.**  Of the methods of a name no two have the same types of parameters; those of
a nearer type come before those of a farther one; and a method that is declared along the chain of lookup
is there, in its place, unless one declared before it has the same types of parameters.  A call with some
arguments fails exactly if they convert to the parameters of no method that is there.  If they are values
or integer literals, and some method has parameters of exactly their types, the first such method is
called, whatever other methods there are before, between and behind. -/
theorem exact_overload_wins (r : Registry) (t : TypeDef) (name : String) (binding : Binding)
    (ignoreCase : Bool) :
    let found := r.findMethods t name binding ignoreCase
    let declared (types : List TypeDef) := types.flatMap (·.methodsOf name binding ignoreCase)
    let called (arguments : List Operand) :=
      r.selectOverload (found.map fun m => (m.parameters, m)) arguments
    (found.Pairwise fun g m => g.sameParameters m = false) ∧
    (∀ near far, r.lookupChain t = near ++ far → ∃ before after, found = before ++ after ∧
      before.Sublist (declared near) ∧ after.Sublist (declared far)) ∧
    (∀ near m far, declared (r.lookupChain t) = near ++ m :: far →
      (∃ before after, found = before ++ m :: after ∧ before.Sublist near ∧ after.Sublist far) ∨
        ∃ g ∈ near, g.sameParameters m = true) ∧
    (∀ arguments, called arguments = none ↔ ∀ m ∈ found, ¬ r.Applies m.parameters arguments) ∧
    ∀ arguments, (∀ a ∈ arguments, a.IsValue) → (∃ m ∈ found, r.Exact m.parameters arguments) →
      ∃ near m far, found = near ++ m :: far ∧ r.Exact m.parameters arguments ∧
        (∀ g ∈ near, ¬ r.Exact g.parameters arguments) ∧ called arguments = some m := by
  intro found declared called
  refine ⟨Method.adds_addNew.pairwise_foldl List.Pairwise.nil, ?_, ?_, ?_, ?_⟩
  · intro near far hchain
    have hdeclared : declared (r.lookupChain t) = declared near ++ declared far := by
      rw [hchain]
      exact List.flatMap_append
    obtain ⟨after, heq, hafter⟩ := Method.foldl_addNew_append [] (declared near) (declared far)
    refine ⟨(declared near).foldl Method.addNew [], after, ?_, Method.foldl_addNew_sublist _, hafter⟩
    rw [← heq, ← hdeclared]
    rfl
  -- A method is dropped just where an earlier one has the same parameters.
  · intro near m far hdeclared
    by_cases hhidden : ∃ g ∈ near, g.sameParameters m = true
    · exact .inr hhidden
    · left
      obtain ⟨before, after, heq, hbefore, hafter⟩ := Method.foldl_addNew_of_unhidden far
        fun g hg => Bool.eq_false_iff.2 fun hsame => hhidden ⟨g, hg, hsame⟩
      refine ⟨before, after, ?_, hbefore, hafter⟩
      rw [← heq, ← hdeclared]
      rfl
  · intro arguments
    refine selectOverload_eq_none_iff.trans ?_
    simp only [List.forall_mem_map]
  · intro arguments hvalues hexact
    -- The first exact method is taken; those before it have lower scores.
    obtain ⟨near, m, far, heq, hm, hnear⟩ := exists_first hexact
    refine ⟨near, m, far, heq, hm, hnear, ?_⟩
    show r.selectOverload (found.map fun m => (m.parameters, m)) arguments = some m
    rw [heq, List.map_append, List.map_cons]
    apply selectOverload_of_exact hvalues hm
    simp only [List.forall_mem_map]
    exact hnear

/-- What orders are derived from. -/
def entityOfShop : TypeDef :=
  { name := "Entity", space := "Shop"
    methods := [⟨"Add", [⟨"", Known.object⟩], Known.string, false⟩,
      ⟨"Add", [⟨"", Known.int64⟩], Known.int64, false⟩, ⟨"Add", [⟨"", Known.int32⟩], Known.int32, false⟩] }

/-- Orders. -/
def order : TypeDef :=
  { name := "Order", space := "Shop", base := some "Shop.Entity"
    methods := [⟨"Add", [⟨"", Known.object⟩], Known.boolean, false⟩,
      ⟨"Add", [⟨"", "int"⟩], Known.decimal, false⟩] }

/-- A shop where orders and what they are derived from declare several methods of one name. -/
def orders : Registry := .performAll .empty [.register entityOfShop, .register order]

/-- The literal converts to the parameter of each of four methods, and two of these are declared for its
own type, one by its keyword.  The nearer one of these is called. -/
theorem exact_overload_wins_of_literal :
    let found := orders.findMethods order "add" .ofInstance true
    let literal : Operand := { Operand.predefined Known.int32 with form := .integer }
    (∀ a ∈ [literal], a.IsValue) ∧ (∃ m ∈ found, orders.Exact m.parameters [literal]) ∧
      found.map Method.returns = [Known.boolean, Known.decimal, Known.int64, Known.int32] ∧
      (∀ m ∈ found, orders.Applies m.parameters [literal]) ∧
      orders.selectOverload (found.map fun m => (m.parameters, m)) [literal] =
        some ⟨"Add", [⟨"", "int"⟩], Known.decimal, false⟩ := by
  intro found literal
  have hvalues : ∀ a ∈ [literal], a.IsValue := by
    intro a ha
    rw [List.mem_singleton.1 ha]
    exact .inr rfl
  -- The methods are found by evaluation, those of the type itself first.
  have hfound : found = [⟨"Add", [⟨"", Known.object⟩], Known.boolean, false⟩,
      ⟨"Add", [⟨"", "int"⟩], Known.decimal, false⟩, ⟨"Add", [⟨"", Known.int64⟩], Known.int64, false⟩,
      ⟨"Add", [⟨"", Known.int32⟩], Known.int32, false⟩] := by decide +kernel
  have hexact : ∃ m ∈ found, orders.Exact m.parameters [literal] := by
    rw [hfound]
    decide +kernel
  have hall : ∀ m ∈ found, orders.Applies m.parameters [literal] := by
    rw [hfound]
    decide +kernel
  refine ⟨hvalues, hexact, by rw [hfound]; rfl, hall, ?_⟩
  obtain ⟨-, -, -, -, hwins⟩ := exact_overload_wins orders order "add" .ofInstance true
  obtain ⟨near, m, far, heq, hm, hnear, hcalled⟩ := hwins [literal] hvalues hexact
  -- The first method is not the exact one, and the second one is.
  replace heq := hfound.symm.trans heq
  rcases near with - | ⟨first, - | ⟨second, near⟩⟩
  · cases heq
    exact absurd hm (by decide +kernel)
  · cases heq
    exact hcalled
  · obtain ⟨-, hrest⟩ := List.cons.inj heq
    have hsecond : ¬ orders.Exact second.parameters [literal] :=
      hnear second (List.mem_cons_of_mem first List.mem_cons_self)
    rw [← (List.cons.inj hrest).1] at hsecond
    exact absurd (by decide +kernel) hsecond

end Registry

end TypeAhead
