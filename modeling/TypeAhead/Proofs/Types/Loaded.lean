/-
  TypeAhead.Proofs.Types.Loaded — A MODEL THAT IS LOADED IS CLOSED.

  The types of a registry are the predefined ones, the custom ones and arrays of
  these.  A name means one of them, and `[]` behind a name means the array of it.
  When a model is loaded, everything that its types mention is checked, so from
  then on every name that a type of the registry mentions means a type, arrays
  and what is exposed included.

      get?_array                 a name with `[]` behind it
      WellFormed.mentions        what the types of a registry mention
      load_eq_ok_iff             when a model is loaded
      wellFormed_of_load         registries of models
-/
import TypeAhead.Proofs.Types.Hierarchy
import TypeAhead.Types.Model

namespace TypeAhead

/-! ## §1. Arrays. -/

/-- Where no bracket is taken off a name, it is as it was. -/
theorem arrayRank_eq_zero {cs : List Char} (h : (arrayRank cs).1 = 0) : (arrayRank cs).2 = cs := by
  unfold arrayRank at h ⊢
  split
  · cases h
  · rfl

/-- The name of an array is that of its elements with `[]` behind it. -/
theorem TypeDef.fullName_array (t : TypeDef) : t.array.fullName = t.fullName ++ "[]" := by
  unfold fullName array
  dsimp only
  split
  · rfl
  · rw [← String.append_assoc]

namespace Registry

variable {r : Registry} {t u : TypeDef} {name : String}

/-- **`[]` behind a name means an array of what the name means.** -/
theorem get?_array (r : Registry) (name : String) :
    r.get? (name ++ "[]") = (r.get? name).map TypeDef.array := by
  have hrank : arrayRank (name ++ "[]").toList.reverse =
      ((arrayRank name.toList.reverse).1 + 1, (arrayRank name.toList.reverse).2) := by
    rw [String.toList_append, List.reverse_append]
    rfl
  unfold Catalog.get?
  rw [hrank]
  dsimp only
  rw [if_neg (Nat.succ_ne_zero _)]
  split
  · rename_i hzero
    rw [arrayRank_eq_zero hzero, List.reverse_reverse, String.ofList_toList, hzero]
    rfl
  · rw [Option.map_map]
    rfl

/-- An array of a type that is found is found. -/
theorem isSome_get?_array (h : (r.get? name).isSome = true) :
    (r.get? (name ++ "[]")).isSome = true := by
  rw [get?_array, Option.isSome_map]
  exact h

/-! ## §2. The types of a registry. -/

/-- The type is a predefined one, a custom one, or an array of one of these. -/
def Knows (r : Registry) (t : TypeDef) : Prop :=
  ∃ element rank, (element ∈ predefined ∨ element ∈ r.custom) ∧ t = element.arrayOfRank rank

/-- Every registry knows the predefined types. -/
theorem knows_predefined (h : t ∈ predefined) : r.Knows t := ⟨t, 0, .inl h, rfl⟩

/-- What is looked up in a table stands there. -/
theorem mem_of_lookup {α : Type} {table : List (String × α)} {a : α} (h : table.lookup name = some a) :
    (name, a) ∈ table := by
  obtain ⟨front, rest, rfl, -⟩ := List.lookup_eq_some_iff.1 h
  exact List.mem_append_right _ List.mem_cons_self

theorem mem_predefined (h : predefinedNamed.lookup name = some t) : t ∈ predefined := by
  obtain ⟨u, hu, heq⟩ := List.mem_map.1 (mem_of_lookup h)
  cases heq
  exact hu

/-- A full name is looked up among the predefined types and then among the custom ones. -/
theorem ofFullName?_eq_or (r : Registry) (name : String) : r.ofFullName? name =
    (predefinedNamed.lookup name).or (r.custom.find? fun t => t.fullName == name) :=
  r.coherent name

/-- A type is found by its full name among the predefined ones or those that were registered. -/
theorem mem_of_ofFullName? (h : r.ofFullName? name = some t) : t ∈ predefined ∨ t ∈ r.custom := by
  rw [ofFullName?_eq_or, Option.or_eq_some_iff] at h
  rcases h with hlookup | ⟨-, hfind⟩
  · exact .inl (mem_predefined hlookup)
  · exact .inr (List.mem_of_find?_eq_some hfind)

/-- A type is found by its name alone among the predefined ones or those that were registered. -/
theorem mem_of_ofName? (h : r.ofName? name = some t) : t ∈ predefined ∨ t ∈ r.custom := by
  unfold Catalog.ofName? at h
  split at h
  · rename_i hfull
    cases h
    exact mem_of_ofFullName? hfull
  · obtain ⟨full, -, hfull⟩ := Option.bind_eq_some_iff.1 h
    exact mem_of_ofFullName? hfull

/-- **A name means a type of the registry.** -/
theorem knows_of_get? (h : r.get? name = some t) : r.Knows t := by
  unfold Catalog.get? at h
  dsimp only at h
  split at h
  · exact ⟨t, 0, mem_of_ofName? h, rfl⟩
  · obtain ⟨element, helement, rfl⟩ := Option.map_eq_some_iff.1 h
    exact ⟨element, _, mem_of_ofName? helement, rfl⟩

/-- The base of a type is one that the registry knows. -/
theorem knows_of_baseType? (h : r.baseType? t = some u) : r.Knows u := by
  unfold baseType? at h
  split at h
  · exact knows_of_get? h
  · split at h
    · cases h
    · exact knows_of_get? h

/-- All that a type inherits from is known to the registry. -/
theorem inherited_knows : r.Inherited r.Knows where
  base _ := knows_of_baseType?
  interface _ _ := knows_of_get?

/-! ## §3. Names that mean a type. -/

/-- Whether the name is the full name of a predefined type. -/
def isPredefined (name : String) : Bool :=
  (predefinedNamed.lookup name).isSome && (arrayRank name.toList.reverse).1 == 0

/-- It means that type in every registry. -/
theorem exists_predefined (h : isPredefined name = true) : ∃ t ∈ predefined, r.get? name = some t := by
  unfold isPredefined at h
  rw [Bool.and_eq_true, beq_iff_eq] at h
  obtain ⟨t, ht⟩ := Option.isSome_iff_exists.1 h.1
  refine ⟨t, mem_predefined ht, ?_⟩
  unfold Catalog.get?
  simp only [if_pos h.2]
  rw [Catalog.ofName?, ofFullName?_eq_or, ht]
  rfl

/-- The name of a predefined type is found in every registry. -/
theorem isSome_get?_of_isPredefined (h : isPredefined name = true) : (r.get? name).isSome = true := by
  obtain ⟨t, -, ht⟩ := exists_predefined h
  rw [ht]
  rfl

/-- A keyword stands for the name of a predefined type. -/
theorem isPredefined_of_keyword {full : String} (h : Known.ofKeyword? name = some full) :
    isPredefined full = true := by
  have hall : ∀ entry ∈ Known.keywords, isPredefined entry.2 = true := by decide +kernel
  exact hall (name, full) (mem_of_lookup h)

/-- The full names that predefined types mention. -/
def predefinedMentions : List String :=
  [Known.object, Known.boolean, Known.char, Known.string] ++ Known.numeric ++
    [Known.dateTime, Known.dateTimeOffset, Known.timeSpan, Known.guid, Known.dayOfWeek]

/-- The names that predefined types mention are found in every registry. -/
theorem isSome_get?_mention (h : name ∈ predefinedMentions) : (r.get? name).isSome = true := by
  have hnames : ∀ name ∈ predefinedMentions, isPredefined name = true := by decide +kernel
  exact isSome_get?_of_isPredefined (hnames name h)

/-- What predefined types mention means a type, in every registry. -/
theorem isSome_get?_predefined (ht : t ∈ predefined) (hname : name ∈ t.mentions) :
    (r.get? name).isSome = true := by
  have hall : ∀ t ∈ predefined, ∀ name ∈ t.mentions, name ∈ predefinedMentions ∨
      name ∈ [Known.byte, Known.char, Known.string].map (· ++ "[]") := by decide +kernel
  rcases hall t ht name hname with hname | hname
  · exact isSome_get?_mention hname
  · have harrays : ∀ element ∈ [Known.byte, Known.char, Known.string],
        element ∈ predefinedMentions := by decide
    obtain ⟨element, helement, rfl⟩ := List.mem_map.1 hname
    exact isSome_get?_array (isSome_get?_mention (harrays element helement))

/-- What an array mentions: the type of its elements, and predefined ones. -/
theorem mentions_array (h : name ∈ t.array.mentions) :
    name = t.fullName ∨ name ∈ predefinedMentions := by
  have hmentions : t.array.mentions =
      [t.fullName, Known.int32, Known.int64, t.fullName, Known.int32] := rfl
  have hint : Known.int32 ∈ predefinedMentions ∧ Known.int64 ∈ predefinedMentions := by decide
  rw [hmentions] at h
  simp only [List.mem_cons, List.not_mem_nil, or_false] at h
  rcases h with h | h | h | h | h
  · exact .inl h
  · exact .inr (h ▸ hint.1)
  · exact .inr (h ▸ hint.2)
  · exact .inl h
  · exact .inr (h ▸ hint.1)

/-- What is right of a registry that comes of a model. -/
structure WellFormed (r : Registry) : Prop where
  /-- No custom type has the name of an array. -/
  plain : ∀ t ∈ r.custom, (arrayRank t.fullName.toList.reverse).1 = 0
  /-- What custom types mention means a type. -/
  resolved : ∀ t ∈ r.custom, ∀ name ∈ t.mentions, (r.get? name).isSome = true
  /-- What is exposed is a type of the registry. -/
  exposed : ∀ t ∈ r.exposed, r.Knows t

/-- The full name of a custom type means a type. -/
theorem WellFormed.isSome_get?_custom (hr : r.WellFormed) (ht : t ∈ r.custom) :
    (r.get? t.fullName).isSome = true := by
  have hfind : (r.custom.find? fun u => u.fullName == t.fullName).isSome = true :=
    List.find?_isSome.2 ⟨t, ht, beq_self_eq_true _⟩
  unfold Catalog.get?
  simp only [if_pos (hr.plain t ht)]
  rw [Catalog.ofName?, ofFullName?_eq_or]
  cases predefinedNamed.lookup t.fullName with
  | some u => rfl
  | none =>
    obtain ⟨u, hu⟩ := Option.isSome_iff_exists.1 hfind
    rw [Option.none_or, hu]
    rfl

/-- **The full name of a type of the registry means a type.** -/
theorem WellFormed.isSome_get?_fullName (hr : r.WellFormed) (ht : r.Knows t) :
    (r.get? t.fullName).isSome = true := by
  obtain ⟨element, rank, helement, rfl⟩ := ht
  induction rank with
  | zero =>
    rcases helement with helement | helement
    · have hnames : ∀ t ∈ predefined, isPredefined t.fullName = true := by decide +kernel
      exact isSome_get?_of_isPredefined (hnames element helement)
    · exact hr.isSome_get?_custom helement
  | succ rank ih =>
    show (r.get? (element.arrayOfRank rank).array.fullName).isSome = true
    rw [TypeDef.fullName_array]
    exact isSome_get?_array ih

/-- **What a type of the registry mentions means a type.** -/
theorem WellFormed.mentions (hr : r.WellFormed) (ht : r.Knows t) (hname : name ∈ t.mentions) :
    (r.get? name).isSome = true := by
  obtain ⟨element, rank, helement, rfl⟩ := ht
  cases rank with
  | zero =>
    rcases helement with helement | helement
    · exact isSome_get?_predefined helement hname
    · exact hr.resolved element helement name hname
  | succ rank =>
    rcases mentions_array hname with rfl | hname
    · exact hr.isSome_get?_fullName ⟨element, rank, helement, rfl⟩
    · exact isSome_get?_mention hname

/-! ## §4. Models. -/

/-- In a registry that passes the check, every name that a type mentions is found. -/
theorem resolved_of_validate (h : r.validate = .ok ()) :
    ∀ t ∈ r.custom, ∀ name ∈ t.mentions, (r.get? name).isSome = true := by
  intro t ht name hname
  unfold Catalog.validate at h
  split at h
  · cases h
  · rename_i hnone
    have hdangling := List.findSome?_eq_none_iff.1 hnone t ht
    have hfind : r.dangling? t = none := by simpa using hdangling
    have := List.find?_eq_none.1 hfind name hname
    cases hget : r.get? name with
    | some u => rfl
    | none =>
      rw [hget] at this
      exact absurd rfl this

/-- What is made of a change that succeeds. -/
theorem change_eq_ok_iff {x : EStateM ModelFault Catalog TypeDef}
    (hx : ∀ {t c}, x.run r.toCatalog = .ok t c → c.Coherent) {r' : Registry} :
    r.change x hx = .ok (r', t) ↔ x.run r.toCatalog = .ok t r'.toCatalog := by
  unfold change
  split
  · rename_i hrun
    constructor
    · intro h
      cases h
      exact hrun
    · intro h
      cases hrun.symm.trans h
      rfl
  · rename_i hrun
    constructor
    · nofun
    · intro h
      cases hrun.symm.trans h

/-- A registry is its tables; that they are coherent is a proposition. -/
theorem toCatalog_injective {r r' : Registry} (h : r.toCatalog = r'.toCatalog) : r = r' := by
  cases r
  cases r'
  cases h
  rfl

/-- The registry with one more type, of a new full name. -/
def add (r : Registry) (t : TypeDef) (hnew : r.ofFullName? t.fullName = none) : Registry :=
  ⟨r.toCatalog.add t, r.coherent.add hnew⟩

/-- A type is registered if its full name is new and not that of an array. -/
theorem register_eq_ok_iff {r' : Registry} : r.register t = .ok r' ↔
    ∃ hnew : r.ofFullName? t.fullName = none, (arrayRank t.fullName.toList.reverse).1 = 0 ∧ r' = r.add t hnew := by
  -- The registry adds to its catalog only that this stays coherent.
  have hrun : r.register t = .ok r' ↔ ∃ u, (Catalog.register t).run r.toCatalog = .ok u r'.toCatalog := by
    simp only [← change_eq_ok_iff r.coherent.register]
    unfold register
    cases r.change (Catalog.register t) r.coherent.register with
    | error fault => simp [Except.map]
    | ok changed => simp [Except.map, Prod.ext_iff]
  rw [hrun, Catalog.run_register]
  by_cases hnew : r.ofFullName? t.fullName = none ∧ (arrayRank t.fullName.toList.reverse).1 = 0
  · obtain ⟨hnone, hplain⟩ := hnew
    -- A new name that is not that of an array passes both tests.
    rw [if_neg (by simp [hnone, hplain])]
    constructor
    · rintro ⟨u, h⟩
      injection h with _ h
      exact ⟨hnone, hplain, toCatalog_injective h.symm⟩
    · rintro ⟨_, -, rfl⟩
      exact ⟨t, rfl⟩
  · -- Otherwise one of the two tests stops it.
    have htaken : ((r.ofFullName? t.fullName).isSome ||
        decide ((arrayRank t.fullName.toList.reverse).1 ≠ 0)) = true := by
      rw [Bool.or_eq_true, decide_eq_true_iff, Option.isSome_iff_ne_none]
      by_cases hnone : r.ofFullName? t.fullName = none
      · exact .inr fun hplain => hnew ⟨hnone, hplain⟩
      · exact .inl hnone
    rw [if_pos htaken]
    constructor
    · rintro ⟨u, h⟩
      cases h
    · rintro ⟨hnone, hplain, -⟩
      exact absurd ⟨hnone, hplain⟩ hnew

/-- A type is exposed if its name means it; it is listed once. -/
theorem expose_eq_ok_iff {r' : Registry} : r.expose name = .ok (r', t) ↔
    r.get? name = some t ∧
      r' = if t.isAmong r.exposed then r else { r with exposed := r.exposed ++ [t] } := by
  unfold expose
  rw [change_eq_ok_iff r.coherent.expose, Catalog.run_expose]
  cases hget : r.get? name with
  | none => simp
  | some u =>
    -- The list is the same one, whether it is extended in the registry or in its catalog.
    have hsame : (if u.isAmong r.exposed then r else { r with exposed := r.exposed ++ [u] }).toCatalog =
        if u.isAmong r.exposed then r.toCatalog else { r.toCatalog with exposed := r.exposed ++ [u] } := by
      split
      · rfl
      · rfl
    dsimp only
    rw [← hsame]
    constructor
    · intro h
      injection h with hu h
      cases hu
      exact ⟨rfl, toCatalog_injective h.symm⟩
    · rintro ⟨hu, rfl⟩
      cases hu
      rfl

/-- What is kept whenever a type is registered is kept when those of a model are. -/
theorem keeps_registerAll {P : Registry → Prop}
    (hP : ∀ {r r' : Registry} {t : TypeDef}, P r → r.register t = .ok r' → P r')
    {types : List TypeDef} {r' : Registry} (hr : P r) (h : TypeModel.registerAll r types = .ok r') : P r' := by
  induction types generalizing r with
  | nil =>
    cases h
    exact hr
  | cons t types ih =>
    rw [TypeModel.registerAll] at h
    split at h
    · cases h
    · rename_i hregister
      exact ih (hP hr hregister) h

/-- What is kept whenever a type is exposed is kept when those of a model are. -/
theorem keeps_exposeAll {P : Registry → Prop}
    (hP : ∀ {r r' : Registry} {name : String} {t : TypeDef}, P r → r.expose name = .ok (r', t) → P r')
    {names : List String} {r' : Registry} (hr : P r) (h : TypeModel.exposeAll r names = .ok r') : P r' := by
  induction names generalizing r with
  | nil =>
    cases h
    exact hr
  | cons name names ih =>
    rw [TypeModel.exposeAll] at h
    split at h
    · cases h
    · rename_i hexpose
      exact ih (hP hr hexpose) h

/-- A type that is registered does not have the name of an array. -/
theorem plain_of_registerAll {types : List TypeDef} {r' : Registry}
    (hr : ∀ t ∈ r.custom, (arrayRank t.fullName.toList.reverse).1 = 0)
    (h : TypeModel.registerAll r types = .ok r') :
    (∀ t ∈ r'.custom, (arrayRank t.fullName.toList.reverse).1 = 0) ∧ r'.exposed = r.exposed := by
  refine keeps_registerAll (P := fun r' => (∀ t ∈ r'.custom, (arrayRank t.fullName.toList.reverse).1 = 0) ∧
    r'.exposed = r.exposed) ?_ ⟨hr, rfl⟩ h
  rintro r₁ r₂ t ⟨hplain, hexposed⟩ hregister
  obtain ⟨-, hname, rfl⟩ := register_eq_ok_iff.1 hregister
  exact ⟨forall_concat hplain hname, hexposed⟩

/-- To expose a type of a registry changes no meaning. -/
theorem WellFormed.expose (hr : r.WellFormed) {r' : Registry} (h : r.expose name = .ok (r', t)) :
    r'.WellFormed := by
  obtain ⟨hget, rfl⟩ := expose_eq_ok_iff.1 h
  split
  · exact hr
  · exact ⟨hr.plain, hr.resolved, forall_concat hr.exposed (knows_of_get? hget)⟩

/-- To expose types keeps a registry well-formed. -/
theorem WellFormed.exposeAll {names : List String} (hr : r.WellFormed) {r' : Registry}
    (h : TypeModel.exposeAll r names = .ok r') : r'.WellFormed :=
  keeps_exposeAll (fun hr h => hr.expose h) hr h

end Registry

/-- When a model is loaded, and what it is loaded as. -/
theorem TypeModel.load_eq_ok_iff {m : TypeModel} {loaded : LoadedModel} : m.load = .ok loaded ↔
    ∃ registered, registerAll .empty m.types = .ok registered ∧ registered.validate = .ok () ∧
      exposeAll registered m.expose = .ok loaded.registry ∧
      loaded.context = m.context.bind loaded.registry.get? ∧
      ∀ name ∈ m.context, loaded.registry.get? name ≠ none := by
  obtain ⟨registry, context⟩ := loaded
  unfold load
  -- The four steps are taken in turn, and the first one that fails settles it.
  cases registerAll .empty m.types with
  | error fault => simp [bind, Except.bind]
  | ok registered =>
    cases hvalidate : registered.validate with
    | error fault => simp [bind, Except.bind, hvalidate]
    | ok checked =>
      cases hexpose : exposeAll registered m.expose with
      | error fault => simp [bind, Except.bind, hvalidate, hexpose]
      | ok exposed =>
        -- Only a context that is named has to be found.
        cases m.context with
        | none =>
          simp [bind, Except.bind, pure, Except.pure, hvalidate, hexpose, eq_comm]
        | some name =>
          simp only [bind, Except.bind, hvalidate, hexpose]
          cases hget : exposed.get? name with
          | none =>
            simp only [reduceCtorEq, false_iff]
            rintro ⟨_, hsame, -, hexposed, -, hname⟩
            cases hsame
            cases hexpose.symm.trans hexposed
            exact hname name rfl hget
          | some t =>
            constructor
            · intro h
              cases h
              refine ⟨registered, rfl, hvalidate, hexpose, hget.symm, ?_⟩
              intro other hother
              cases hother
              simp [hget]
            · rintro ⟨_, hsame, -, hexposed, hcontext, -⟩
              cases hsame
              cases hexpose.symm.trans hexposed
              have hcontext : context = some t := hcontext.trans hget
              rw [hcontext]
              rfl

/-- **The registry of a model is well-formed**, and the type of its context is one of the registry. -/
theorem TypeModel.wellFormed_of_load {m : TypeModel} {loaded : LoadedModel} (h : m.load = .ok loaded) :
    loaded.registry.WellFormed ∧ ∀ t, loaded.context = some t → loaded.registry.Knows t := by
  obtain ⟨registered, hregister, hvalidate, hexpose, hcontext, -⟩ := load_eq_ok_iff.1 h
  obtain ⟨hplain, hexposed⟩ := Registry.plain_of_registerAll (r := .empty) nofun hregister
  have hr : registered.WellFormed := by
    refine ⟨hplain, Registry.resolved_of_validate hvalidate, ?_⟩
    rw [hexposed]
    exact nofun
  refine ⟨hr.exposeAll hexpose, ?_⟩
  intro t ht
  rw [hcontext, Option.bind_eq_some_iff] at ht
  obtain ⟨name, -, hget⟩ := ht
  exact Registry.knows_of_get? hget

end TypeAhead
