/-
  TypeAhead.Proofs.CompletionList — WHAT A COMPLETION LISTS.

  The names that are listed for a type are gathered from the declarations along its
  chain of lookup; a member is found by its name along the same chain.  So the list
  holds the names that find a member, each once, and no others.  Static members, and
  those of a type without what it inherits, are gathered from the type alone, and the
  chain starts with it.

      mem_memberNames_iff         fields and properties by name, and their declarations
      isSome_findMember?_iff      names that find one
      findMethods_ne_nil_iff      names that find methods
      sorted_eq_map               names put in order
      presents_memberItems        the members of a type in order
      completion_list             what is listed, and in which order
-/
import Mathlib.Data.List.Nodup
import TypeAhead.Proofs.ByteOrder
import TypeAhead.Proofs.Types.EveryModel
import TypeAhead.Proofs.Types.Finding
import TypeAhead.Proofs.TypedWord

namespace TypeAhead

/-! ## §1. Names, each once. -/

namespace MemberNames

variable {names found : List String} {name : String}

/-- The same names, each once. -/
theorem mem_distinct : name ∈ distinct names ↔ name ∈ names := by
  constructor
  · intro h
    exact (adds_addNew.mem_or_mem h).resolve_left List.not_mem_nil
  · intro h
    obtain ⟨other, hother, hsame⟩ : ∃ other ∈ distinct names, ¬ other ≠ name :=
      adds_addNew.exists_of_mem (fun hne => hne rfl) h
    rwa [Decidable.not_not.1 hsame] at hother

theorem nodup_distinct (names : List String) : (distinct names).Nodup :=
  adds_addNew.pairwise_foldl List.Pairwise.nil

end MemberNames

/-! ## §2. Names and what they find. -/

namespace Registry

variable {r : Registry} {t : TypeDef} {name : String} {binding : Binding} {inherited : Bool}

/-- The types of which the members are listed. -/
def listed (r : Registry) (t : TypeDef) (binding : Binding) (inherited : Bool) : List TypeDef :=
  if binding = .ofInstance && inherited then r.lookupChain t else [t]

/-- One of the types declares a field or a property of the name that is reached. -/
def DeclaresData (types : List TypeDef) (binding : Binding) (name : String) : Prop :=
  ∃ owner ∈ types, ∃ m ∈ owner.fields ++ owner.properties, binding.admits m.isStatic = true ∧ m.name = name

/-- One of the types declares a method of the name that is reached. -/
def DeclaresMethod (types : List TypeDef) (binding : Binding) (name : String) : Prop :=
  ∃ owner ∈ types, ∃ m ∈ owner.methods, binding.admits m.isStatic = true ∧ m.name = name

/-- Names are gathered from the members of all types that are reached. -/
theorem mem_gathered_iff {α : Type} (types : List TypeDef) (members : TypeDef → List α) (isStatic : α → Bool)
    (nameOf : α → String) :
    name ∈ types.flatMap (fun owner => ((members owner).filter fun m => binding.admits (isStatic m)).map nameOf) ↔
      ∃ owner ∈ types, ∃ m ∈ members owner, binding.admits (isStatic m) = true ∧ nameOf m = name := by
  simp only [List.mem_flatMap, List.mem_map, List.mem_filter, and_assoc]

/-- **Fields and properties are listed under the names that declare them.** -/
theorem mem_memberNames_iff : (name ∈ (r.memberNames t binding inherited).fields ∨
    name ∈ (r.memberNames t binding inherited).properties) ↔
      DeclaresData (r.listed t binding inherited) binding name := by
  have hfields : name ∈ (r.memberNames t binding inherited).fields ↔
      ∃ owner ∈ r.listed t binding inherited, ∃ m ∈ owner.fields,
        binding.admits m.isStatic = true ∧ m.name = name :=
    MemberNames.mem_distinct.trans (mem_gathered_iff _ TypeDef.fields _ _)
  have hproperties : name ∈ (r.memberNames t binding inherited).properties ↔
      ∃ owner ∈ r.listed t binding inherited, ∃ m ∈ owner.properties,
        binding.admits m.isStatic = true ∧ m.name = name :=
    MemberNames.mem_distinct.trans (mem_gathered_iff _ TypeDef.properties _ _)
  rw [hfields, hproperties]
  unfold DeclaresData
  simp only [List.mem_append, or_and_right, exists_or, and_or_left]

/-- **So are methods.** -/
theorem mem_memberNames_methods_iff : name ∈ (r.memberNames t binding inherited).methods ↔
    DeclaresMethod (r.listed t binding inherited) binding name :=
  MemberNames.mem_distinct.trans (mem_gathered_iff _ TypeDef.methods _ _)

/-- What is reached of a type has the names of its fields and properties. -/
theorem exists_reached_iff {owner : TypeDef} : (∃ m ∈ owner.reached binding, m.name = name) ↔
    ∃ m ∈ owner.fields ++ owner.properties, binding.admits m.isStatic = true ∧ m.name = name := by
  unfold TypeDef.reached
  constructor
  · rintro ⟨found, hfound, rfl⟩
    rcases List.mem_append.1 hfound with hfound | hfound
    · obtain ⟨m, hm, rfl⟩ := List.mem_map.1 hfound
      obtain ⟨hm, hadmits⟩ := List.mem_filter.1 hm
      exact ⟨m, List.mem_append_left _ hm, hadmits, rfl⟩
    · obtain ⟨m, hm, rfl⟩ := List.mem_map.1 hfound
      obtain ⟨hm, hadmits⟩ := List.mem_filter.1 hm
      exact ⟨m, List.mem_append_right _ hm, hadmits, rfl⟩
  · rintro ⟨m, hm, hadmits, rfl⟩
    rcases List.mem_append.1 hm with hm | hm
    · exact ⟨_, List.mem_append_left _ (List.mem_map.2 ⟨m, List.mem_filter.2 ⟨hm, hadmits⟩, rfl⟩), rfl⟩
    · exact ⟨_, List.mem_append_right _ (List.mem_map.2 ⟨m, List.mem_filter.2 ⟨hm, hadmits⟩, rfl⟩), rfl⟩

/-- **A name finds a field or property exactly if one is declared along the chain of lookup.** -/
theorem isSome_findMember?_iff : (r.findMember? t name binding false).isSome = true ↔
    DeclaresData (r.lookupChain t) binding name := by
  rw [findMember?_eq_find?, List.find?_isSome]
  unfold DeclaresData
  constructor
  · rintro ⟨found, hfound, hname⟩
    obtain ⟨owner, howner, hfound⟩ := List.mem_flatMap.1 hfound
    exact ⟨owner, howner, exists_reached_iff.1 ⟨found, hfound, beq_iff_eq.1 hname⟩⟩
  · rintro ⟨owner, howner, hm⟩
    obtain ⟨found, hfound, hname⟩ := exists_reached_iff.2 hm
    exact ⟨found, List.mem_flatMap.2 ⟨owner, howner, hfound⟩, beq_iff_eq.2 hname⟩

/-- **It finds methods exactly if one is declared there.** -/
theorem findMethods_ne_nil_iff : r.findMethods t name binding false ≠ [] ↔
    DeclaresMethod (r.lookupChain t) binding name := by
  unfold findMethods DeclaresMethod
  rw [Ne, Method.foldl_addNew_eq_nil_iff, List.eq_nil_iff_forall_not_mem, not_forall_not]
  constructor
  · rintro ⟨m, hm⟩
    obtain ⟨owner, howner, hm⟩ := List.mem_flatMap.1 hm
    obtain ⟨hm, hboth⟩ := List.mem_filter.1 hm
    rw [Bool.and_eq_true] at hboth
    exact ⟨owner, howner, m, hm, hboth.1, beq_iff_eq.1 hboth.2⟩
  · rintro ⟨owner, howner, m, hm, hadmits, hname⟩
    have hboth : (binding.admits m.isStatic && Text.sameName false m.name name) = true :=
      Bool.and_eq_true_iff.2 ⟨hadmits, beq_iff_eq.2 hname⟩
    exact ⟨m, List.mem_flatMap.2 ⟨owner, howner, List.mem_filter.2 ⟨hm, hboth⟩⟩⟩

/-- Members are listed of types of which the members are found. -/
theorem listed_subset (r : Registry) (t : TypeDef) (binding : Binding) (inherited : Bool) :
    r.listed t binding inherited ⊆ r.lookupChain t := by
  unfold listed
  split
  · exact List.Subset.refl _
  · intro u hu
    rw [List.mem_singleton.1 hu]
    exact (r.baseChain_isPrefix t).subset (mem_baseChain r t)

/-- **Every name that is listed finds something.** -/
theorem isSome_findMember?_of_listed (h : name ∈ (r.memberNames t binding inherited).fields ∨
    name ∈ (r.memberNames t binding inherited).properties) :
    (r.findMember? t name binding false).isSome = true := by
  obtain ⟨owner, howner, hm⟩ := mem_memberNames_iff.1 h
  exact isSome_findMember?_iff.2 ⟨owner, r.listed_subset t binding inherited howner, hm⟩

theorem findMethods_ne_nil_of_listed (h : name ∈ (r.memberNames t binding inherited).methods) :
    r.findMethods t name binding false ≠ [] := by
  obtain ⟨owner, howner, hm⟩ := mem_memberNames_methods_iff.1 h
  exact findMethods_ne_nil_iff.2 ⟨owner, r.listed_subset t binding inherited howner, hm⟩

end Registry

/-! ## §3. Names in order. -/

/-- Each of the names comes before the next in the order of their bytes, so that none is there twice. -/
def Text.Ascending (names : List String) : Prop := names.Pairwise fun a b => Text.bytes a < Text.bytes b

theorem Text.ascending_nil : Text.Ascending [] := List.Pairwise.nil

namespace Completion

/-- **Different names are put in order.** -/
theorem sorted_eq_map (kind : ItemKind) {names : List String} (h : names.Nodup) :
    ∃ ordered : List String, sorted kind names = ordered.map (⟨·, kind⟩) ∧ Text.Ascending ordered ∧
      ∀ name, name ∈ ordered ↔ name ∈ names := by
  refine ⟨names.mergeSort fun a b => decide (a ≤ b), rfl, ?_, fun name => List.mem_mergeSort⟩
  have hordered : (names.mergeSort fun a b => decide (a ≤ b)).Pairwise fun a b => decide (a ≤ b) = true := by
    apply List.pairwise_mergeSort
    · intro a b c hab hbc
      exact decide_eq_true (String.le_trans (of_decide_eq_true hab) (of_decide_eq_true hbc))
    · intro a b
      rw [Bool.or_eq_true, decide_eq_true_eq, decide_eq_true_eq]
      exact String.le_total a b
  have hdifferent : (names.mergeSort fun a b => decide (a ≤ b)).Nodup :=
    (List.mergeSort_perm names _).nodup_iff.2 h
  -- The order that is sorted by is a weak one, but no two of the names are the same.
  refine (hordered.and hdifferent).imp ?_
  rintro a b ⟨hle, hne⟩
  have hle : a ≤ b := of_decide_eq_true hle
  have hlt : a < b := by
    refine String.not_le.1 fun hba => hne ?_
    exact String.le_antisymm hle hba
  exact Text.bytes_lt hlt

/-! ## §4. Lists. -/

variable {s : Typing.Setting} {listing : Listing} {text : String} {caret : Nat} {c : Completion}

/-- A list is that of an analysis of what stands before the word. -/
theorem exists_analyze_of_complete (h : s.complete listing text caret = .ok (some c)) :
    ∃ start analysis, wordStart? text caret = some start ∧
      s.analyze text (beforeWord text start) = .ok analysis ∧
      c = ofAnalysis s listing start (caret - start) analysis := by
  unfold Typing.Setting.complete at h
  split at h
  · cases h
  · rename_i start hstart
    split at h
    · split at h <;> cases h
    · rename_i analysis hanalyze
      cases h
      exact ⟨start, analysis, hstart, hanalyze, rfl⟩

/-- The items that stand for names of members: fields, then properties, then methods, each in order.
Instances of an enumeration have no fields. -/
def Presents (t : TypeDef) (binding : Binding) (names : MemberNames) (items : List Item) : Prop :=
  ∃ fields properties methods : List String,
    items = fields.map (⟨·, .field⟩) ++ properties.map (⟨·, .property⟩) ++ methods.map (⟨·, .method⟩) ∧
    Text.Ascending fields ∧ Text.Ascending properties ∧ Text.Ascending methods ∧
    (∀ name, name ∈ fields ↔
      name ∈ names.fields ∧ ¬ (t.kind = .enumeration ∧ binding = .ofInstance)) ∧
    (∀ name, name ∈ properties ↔ name ∈ names.properties) ∧
    ∀ name, name ∈ methods ↔ name ∈ names.methods

/-- **The members of a type are presented under their names.** -/
theorem presents_memberItems (r : Registry) (t : TypeDef) (binding : Binding) (inherited : Bool) :
    Presents t binding (r.memberNames t binding inherited) (memberItems r t binding inherited) := by
  unfold memberItems
  generalize hnames : r.memberNames t binding inherited = names
  have hdistinct : names.fields.Nodup ∧ names.properties.Nodup ∧ names.methods.Nodup := by
    rw [← hnames]
    exact ⟨MemberNames.nodup_distinct _, MemberNames.nodup_distinct _, MemberNames.nodup_distinct _⟩
  obtain ⟨fields, hfields, hfieldsUp, hfieldsMem⟩ := sorted_eq_map .field hdistinct.1
  obtain ⟨properties, hproperties, hpropertiesUp, hpropertiesMem⟩ := sorted_eq_map .property hdistinct.2.1
  obtain ⟨methods, hmethods, hmethodsUp, hmethodsMem⟩ := sorted_eq_map .method hdistinct.2.2
  simp only [hfields, hproperties, hmethods, Bool.and_eq_true, decide_eq_true_eq]
  -- The values of an enumeration are left out where an instance of it is asked for its members.
  by_cases hvalues : t.kind = .enumeration ∧ binding = .ofInstance
  · rw [if_pos hvalues]
    refine ⟨[], properties, methods, rfl, Text.ascending_nil, hpropertiesUp, hmethodsUp, ?_,
      hpropertiesMem, hmethodsMem⟩
    intro name
    rw [iff_false_right fun h => h.2 hvalues]
    exact List.not_mem_nil
  · rw [if_neg hvalues]
    refine ⟨fields, properties, methods, rfl, hfieldsUp, hpropertiesUp, hmethodsUp, ?_,
      hpropertiesMem, hmethodsMem⟩
    intro name
    rw [hfieldsMem, and_iff_left hvalues]

end Completion

/-- **A completion lists what a lookup finds.**  The names that are listed for the instances of a type
with all that it inherits are those that find a field or property, and those that find a method.  For
static members, or without what is inherited, every name that is listed finds something.  The items of a
completion are `it` if nothing was analysed, and then the members of the type that was, or of the context,
each name once for each kind and in the order of bytes. -/
theorem completion_list :
    (∀ (r : Registry) (t : TypeDef) (name : String),
      ((name ∈ (r.memberNames t .ofInstance true).fields ∨
          name ∈ (r.memberNames t .ofInstance true).properties) ↔
        (r.findMember? t name .ofInstance false).isSome = true) ∧
      (name ∈ (r.memberNames t .ofInstance true).methods ↔
        r.findMethods t name .ofInstance false ≠ [])) ∧
    (∀ (r : Registry) (t : TypeDef) (binding : Binding) (inherited : Bool) (name : String),
      ((name ∈ (r.memberNames t binding inherited).fields ∨
          name ∈ (r.memberNames t binding inherited).properties) →
        (r.findMember? t name binding false).isSome = true) ∧
      (name ∈ (r.memberNames t binding inherited).methods →
        r.findMethods t name binding false ≠ [])) ∧
    ∀ (s : Typing.Setting) (listing : Listing) (text : String) (caret : Nat) (c : Completion),
      s.complete listing text caret = .ok (some c) →
      ∃ start analysis, Completion.wordStart? text caret = some start ∧
        s.analyze text (Completion.beforeWord text start) = .ok analysis ∧
        c.type = analysis.resolution.type?.getD s.context ∧
        c.isStatic = analysis.resolution.isTypeName ∧
        ∃ members, c.items = (if analysis.resolution.type? = none then [⟨"it", .variable⟩] else []) ++ members ∧
          Completion.Presents c.type analysis.resolution.binding
            (s.registry.memberNames c.type analysis.resolution.binding listing.inherited) members := by
  -- What is listed is compared with what is found, by kind; the order is told of each list.
  refine ⟨fun r t name => ⟨?_, ?_⟩, fun r t binding inherited name => ⟨?_, ?_⟩, ?_⟩
  · exact Registry.mem_memberNames_iff.trans Registry.isSome_findMember?_iff.symm
  · exact Registry.mem_memberNames_methods_iff.trans Registry.findMethods_ne_nil_iff.symm
  · exact Registry.isSome_findMember?_of_listed
  · exact Registry.findMethods_ne_nil_of_listed
  -- A list belongs to an analysis of the text before the word.
  · intro s listing text caret c h
    obtain ⟨start, analysis, hstart, hanalyze, rfl⟩ := Completion.exists_analyze_of_complete h
    refine ⟨start, analysis, hstart, hanalyze, rfl, rfl, _, ?_,
      Completion.presents_memberItems s.registry _ analysis.resolution.binding listing.inherited⟩
    unfold Completion.ofAnalysis Completion.itemsOf
    cases analysis.resolution.type? with
    | none => rfl
    | some t => rfl

/-- A day of the week, whose values are none of its members. -/
theorem completion_list_of_day :
    let s : Typing.Setting := ⟨.empty, {}, Predefined.dayOfWeekType⟩
    Completion.wordStart? "it.To" 5 = some 3 ∧
    ∃ c, s.complete {} "it.To" 5 = .ok (some c) ∧ c.type = Predefined.dayOfWeekType ∧ c.isStatic = false ∧
      Completion.Presents Predefined.dayOfWeekType .ofInstance
        (s.registry.memberNames Predefined.dayOfWeekType .ofInstance true) c.items := by
  intro s
  have hstart : Completion.wordStart? "it.To" 5 = some 3 := by decide +kernel
  -- The text before the word is analyzed once; the result is used in all that follows.
  have hresolved : (s.analyze "it.To" 2).toOption.map (fun analysis =>
      (analysis.resolution.type?, analysis.resolution.isTypeName)) =
        some (some Predefined.dayOfWeekType, false) := by
    decide +kernel
  refine ⟨hstart, ?_⟩
  cases hanalyze : s.analyze "it.To" 2 with
  | error failure =>
    rw [hanalyze] at hresolved
    cases hresolved
  | ok analysis =>
    rw [hanalyze] at hresolved
    have hresolved := Option.some.inj hresolved
    have htype : analysis.resolution.type? = some Predefined.dayOfWeekType := congrArg Prod.fst hresolved
    have hstatic : analysis.resolution.isTypeName = false := congrArg Prod.snd hresolved
    have hbinding : analysis.resolution.binding = .ofInstance := by
      unfold Resolution.binding
      rw [hstatic]
      rfl
    have hbefore : Completion.beforeWord "it.To" 3 = 2 := by decide +kernel
    -- The list is the one that the analysis gives.
    have hcomplete : s.complete {} "it.To" 5 =
        .ok (some (Completion.ofAnalysis s {} 3 (5 - 3) analysis)) := by
      unfold Typing.Setting.complete
      rw [hstart]
      dsimp only
      rw [hbefore, hanalyze]
      rfl
    -- What the theorem tells of some start and some analysis is told of these.
    obtain ⟨start, found, hstart', hfound, hctype, hcstatic, members, hitems, hpresents⟩ :=
      completion_list.2.2 s {} "it.To" 5 _ hcomplete
    cases hstart.symm.trans hstart'
    rw [hbefore] at hfound
    cases hanalyze.symm.trans hfound
    rw [htype, Option.getD_some] at hctype
    rw [htype, if_neg nofun, List.nil_append] at hitems
    rw [hbinding, hctype, ← hitems] at hpresents
    exact ⟨_, hcomplete, hctype, hcstatic.trans hstatic, hpresents⟩

end TypeAhead
