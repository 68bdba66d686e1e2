/-
  TypeAhead.Proofs.Typing.Elements — ARRAYS ARE SEQUENCES OF THEIR ELEMENTS.

  An array is made from a type, but it refers to the type of its elements by name.
  So its elements are what the registry finds by the full name of that type, which
  is the type itself for every type of a registry.  The root, from which an array
  inherits, has neither elements nor methods that are called like an operator.

      elementType?_array       the elements of an array
      findMethods_array        an operator's name is not that of a method of an array
      selectOverload_array     the index of an array is an integer
-/
import TypeAhead.Proofs.Types.Registered
import TypeAhead.Typing.Sequence

namespace TypeAhead

/-! ## §1. The names of operators. -/

namespace SequenceOperator

/-- The name of an operator. -/
def word (o : SequenceOperator) : String :=
  ((names.find? fun entry => entry.2 == o).map Prod.fst).getD ""

theorem word_mem_names (o : SequenceOperator) : (o.word, o) ∈ names := by
  cases o <;> decide

/-- Operators are found by their names, whether case makes a difference or not. -/
theorem ofName?_word (o : SequenceOperator) (ignoreCase : Bool) : ofName? o.word ignoreCase = some o := by
  have hall : ∀ entry ∈ names, ∀ ignoreCase, ofName? entry.1 ignoreCase = some entry.2 := by decide +kernel
  exact hall (o.word, o) o.word_mem_names ignoreCase

end SequenceOperator

namespace Registry

variable {r : Registry} {element t : TypeDef} {a : Operand}

/-! ## §2. Where the members of an array are found. -/

/-- A type is the first of those in which its members are looked for. -/
theorem lookupChain_eq_cons (r : Registry) (t : TypeDef) : ∃ rest, r.lookupChain t = t :: rest := by
  obtain ⟨rest, h⟩ := (r.prefix_extendChain [t] t (Limits.hierarchy - 1)).trans (r.baseChain_isPrefix t)
  exact ⟨rest, h.symm⟩

/-- An array inherits from the root alone. -/
theorem eq_or_eq_of_lookupChain_array {u : TypeDef} (h : u ∈ r.lookupChain element.array) :
    u = element.array ∨ u = Predefined.objectType := by
  have hinherited : r.Inherited fun u => u = element.array ∨ u = Predefined.objectType := by
    constructor
    · rintro t u (rfl | rfl) hbase
      · -- An array names no base, so it has the root.
        have hbase : (if element.array.kind = .interface || element.array.fullName = Known.object then none
          else r.get? Known.object) = some u := hbase
        split at hbase
        · cases hbase
        · cases (get?_object r).symm.trans hbase
          exact .inr rfl
      · cases hbase
    · rintro t u name (rfl | rfl) hname
      · cases hname
      · cases hname
  refine hinherited.lookupChain (fun u hu => ?_) (.inl rfl) u h
  cases (get?_object r).symm.trans hu
  exact .inr rfl

/-! ## §3. Arrays as sequences. -/

/-- **The elements of an array** are of the type that its name for them means. -/
theorem elementType?_array (r : Registry) (element : TypeDef) :
    r.elementType? element.array = r.get? element.fullName := by
  obtain ⟨rest, hchain⟩ := r.lookupChain_eq_cons element.array
  unfold elementType?
  rw [hchain]
  rfl

/-- **No method of an array is called like an operator.** -/
theorem findMethods_array (r : Registry) (element : TypeDef) (o : SequenceOperator) (binding : Binding)
    (ignoreCase : Bool) : r.findMethods element.array o.word binding ignoreCase = [] := by
  have hall : ∀ entry ∈ SequenceOperator.names, ∀ ignoreCase, ∀ m ∈ Predefined.objectType.methods,
      Text.sameName ignoreCase m.name entry.1 = false := by decide +kernel
  have hroot := hall (o.word, o) o.word_mem_names ignoreCase
  have hnone : (r.lookupChain element.array).flatMap (fun u => u.methodsOf o.word binding ignoreCase) = [] := by
    rw [List.flatMap_eq_nil_iff]
    intro u hu
    rcases eq_or_eq_of_lookupChain_array hu with rfl | rfl
    · rfl
    · rw [TypeDef.methodsOf, List.filter_eq_nil_iff]
      intro m hm
      simp [hroot m hm]
  unfold findMethods
  rw [hnone]
  rfl

theorem findIndexers_array (r : Registry) (element : TypeDef) :
    r.findIndexers element.array = element.array.indexers := by
  obtain ⟨rest, hchain⟩ := r.lookupChain_eq_cons element.array
  unfold findIndexers
  rw [hchain]
  rfl

/-- An integer of 32 bits. -/
def int32Literal : Operand := { Operand.predefined Known.int32 with form := .integer }

theorem converts_int32Literal (r : Registry) :
    r.converts int32Literal (Operand.predefined Known.int32).type = true := by
  unfold converts
  rfl

/-- **The index of an array is an integer**, and leads to the type that its name for elements means. -/
theorem selectOverload_array (r : Registry) (element : TypeDef) :
    r.selectOverload ((r.findIndexers element.array).map fun i => (i.parameters, i)) [int32Literal] =
      some ⟨Predefined.parameters [Known.int32], element.fullName⟩ := by
  have hint32 : r.get? Known.int32 = some (Operand.predefined Known.int32).type :=
    get?_predefined (t := (Operand.predefined Known.int32).type) (by decide)
  have happlicable : r.applicability (Predefined.parameters [Known.int32]) [int32Literal] = some 1 := by
    obtain ⟨name, hname⟩ : ∃ name, Predefined.parameters [Known.int32] = [⟨name, Known.int32⟩] := ⟨_, rfl⟩
    rw [hname]
    unfold applicability
    rw [hint32]
    dsimp only
    rw [converts_int32Literal]
    rfl
  rw [findIndexers_array]
  unfold selectOverload TypeDef.array
  simp only [List.map_cons, List.map_nil, List.filterMap_cons, List.filterMap_nil, happlicable, Option.map_some,
    List.foldl_cons, List.foldl_nil]
  rfl

end Registry

end TypeAhead
