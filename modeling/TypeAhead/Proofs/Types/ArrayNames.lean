/-
  TypeAhead.Proofs.Types.ArrayNames — NAMES OF ARRAYS OF ANY RANK.

  A registry keeps no arrays: each time a name ends in `[]`, an array is made anew of
  what the rest of the name means.  So the names alone keep arrays together.  A type is
  kept with its namespace apart, and it names the type of its elements by the joined
  name, which must lead back to the type that the array was made of, also where the
  first name was a keyword.

      get?_brackets              a name with any number of `[]` behind it
      IsArrayOf                  what an array has of its elements
      array_names_performAll     names of arrays, after every sequence of calls
-/
import TypeAhead.Proofs.Types.Assignable
import TypeAhead.Proofs.Types.History
import TypeAhead.Proofs.Typing.Elements

namespace TypeAhead.Registry

variable {r : Registry} {t u : TypeDef}

/-! ## §1. Names with `[]` behind them. -/

/-- `[]` as many times as the rank says. -/
def brackets : Nat → String
  | 0 => ""
  | rank + 1 => brackets rank ++ "[]"

/-- The joined name of an array is that of what it was made of, with all the `[]` behind it. -/
theorem fullName_arrayOfRank (t : TypeDef) (rank : Nat) :
    (t.arrayOfRank rank).fullName = t.fullName ++ brackets rank := by
  induction rank with
  | zero => exact String.append_empty.symm
  | succ rank ih =>
    show (t.arrayOfRank rank).array.fullName = _
    rw [TypeDef.fullName_array, ih, brackets, String.append_assoc]

/-- **A name with `[]` behind it, however often, means the array of that rank.** -/
theorem get?_brackets (r : Registry) (name : String) (rank : Nat) :
    r.get? (name ++ brackets rank) = (r.get? name).map (TypeDef.arrayOfRank · rank) := by
  induction rank with
  | zero =>
    rw [brackets, String.append_empty]
    exact Option.map_id'.symm
  | succ rank ih =>
    rw [brackets, ← String.append_assoc, get?_array, ih, Option.map_map]
    rfl

/-! ## §2. What an array has. -/

/-- The type is the array of an element type, as far as a registry can tell. -/
structure IsArrayOf (r : Registry) (t element : TypeDef) : Prop where
  kind : t.kind = .array
  /-- The type that its description names for the elements. -/
  declared : t.elementType.bind r.get? = some element
  /-- The type of the elements of the sequence, wherever along the hierarchy it is said. -/
  elementType : r.elementType? t = some element
  /-- The one indexer takes an integer and leads to an element. -/
  indexer : ∃ i, r.findIndexers t = [i] ∧ i.parameters.map Parameter.type = [Known.int32] ∧
    r.get? i.type = some element
  /-- The length is an integer, in every spelling that may be used. -/
  length : ∀ ignoreCase, ∃ m int32, r.findMember? t "Length" .ofInstance ignoreCase = some m ∧
    r.get? m.type = some int32 ∧ int32.fullName = Known.int32 ∧ int32 ∈ predefined
  reflexive : r.isAssignable t t = true
  root : ∃ root, r.get? Known.object = some root ∧ r.isAssignable t root = true

theorem exists_int32 : ∃ t ∈ predefined, t.fullName = Known.int32 := by decide +kernel

/-- The length of an array. -/
theorem findMember?_length_array (r : Registry) (t : TypeDef) (ignoreCase : Bool) :
    r.findMember? t.array "Length" .ofInstance ignoreCase =
      some ⟨"Length", false, Known.int32, t.array.fullName⟩ := by
  obtain ⟨rest, hchain⟩ := r.lookupChain_eq_cons t.array
  have hown : t.array.member? "Length" .ofInstance ignoreCase =
      some ⟨"Length", false, Known.int32, t.array.fullName⟩ := by
    cases ignoreCase <;> rfl
  unfold findMember?
  rw [hchain, List.findSome?_cons, hown]

/-- **An array has elements of the type that it was made of**, if the joined name of that type leads back
to it. -/
theorem isArrayOf_array (h : r.get? t.fullName = some t) : r.IsArrayOf t.array t where
  kind := rfl
  declared := h
  elementType := by rw [elementType?_array, h]
  indexer := ⟨⟨Predefined.parameters [Known.int32], t.fullName⟩, findIndexers_array r t, rfl, h⟩
  length ignoreCase := by
    obtain ⟨int32, hmem, hname⟩ := exists_int32
    exact ⟨_, int32, findMember?_length_array r t ignoreCase, hname ▸ get?_predefined hmem, hname, hmem⟩
  reflexive := isAssignable_refl r t.array
  root := by
    refine ⟨Predefined.objectType, get?_object r, ?_⟩
    have hroot : (Predefined.objectType.fullName == Known.object) = true := by decide
    unfold isAssignable
    rw [hroot, Bool.or_true, Bool.true_or]

/-! ## §3. Names of arrays. -/

/-- **Names of arrays of any rank**, after every sequence of calls, succeeding or failing.  A name with
`[]` behind it, however often, means a type exactly if the name alone does.  The full name of that type is
the full name of the other with the `[]` behind it, and means it again.  With one `[]` at least it is the
array of what the name with one less means. -/
theorem array_names_performAll (calls : List Catalog.Call) (name : String) (rank : Nat) :
    (((performAll .empty calls).get? (name ++ brackets rank)).isSome = true ↔
      ((performAll .empty calls).get? name).isSome = true) ∧
    ∀ t, (performAll .empty calls).get? (name ++ brackets rank) = some t →
      (∃ u, (performAll .empty calls).get? name = some u ∧ t.fullName = u.fullName ++ brackets rank) ∧
      (performAll .empty calls).get? t.fullName = some t ∧
      ∀ less, rank = less + 1 → ∃ element,
        (performAll .empty calls).get? (name ++ brackets less) = some element ∧
        (performAll .empty calls).IsArrayOf t element := by
  have hbuilt : (performAll .empty calls).Built := Built.empty.performAll
  generalize performAll .empty calls = r at hbuilt ⊢
  constructor
  · rw [get?_brackets, Option.isSome_map]
  · intro t ht
    have hback : r.get? t.fullName = some t := hbuilt.get?_fullName (knows_of_get? ht)
    -- A name with brackets means the array of what the name without them means.
    rw [get?_brackets] at ht
    obtain ⟨u, hu, rfl⟩ := Option.map_eq_some_iff.1 ht
    refine ⟨⟨u, hu, fullName_arrayOfRank u rank⟩, hback, ?_⟩
    rintro less rfl
    have hless : r.get? (name ++ brackets less) = some (u.arrayOfRank less) := by
      rw [get?_brackets, hu]
      rfl
    exact ⟨_, hless, isArrayOf_array (hbuilt.get?_fullName (knows_of_get? hless))⟩

/-- Arrays of arrays of integers, named by a keyword, beside a type outside of any namespace. -/
theorem array_names_performAll_of_keyword :
    ∃ t element, (performAll .empty [.register { name := "Loose" }, .expose "Loose[]"]).get? "int[][]" = some t ∧
      t.fullName = "System.Int32[][]" ∧ element.fullName = "System.Int32[]" ∧
      (performAll .empty [.register { name := "Loose" }, .expose "Loose[]"]).IsArrayOf t element := by
  have hname : "int[][]" = "int" ++ brackets 2 := by decide
  rw [hname]
  obtain ⟨hsome, hall⟩ := array_names_performAll [.register { name := "Loose" }, .expose "Loose[]"] "int" 2
  obtain ⟨t, ht⟩ := Option.isSome_iff_exists.1 (hsome.2 (by rfl))
  obtain ⟨⟨u, hu, hfull⟩, -, helement⟩ := hall t ht
  obtain ⟨element, hget, harray⟩ := helement 1 rfl
  cases hu
  have hless := (array_names_performAll [.register { name := "Loose" }, .expose "Loose[]"] "int" 1).2 element hget
  obtain ⟨⟨v, hv, hfullElement⟩, -, -⟩ := hless
  cases hv
  refine ⟨t, element, ht, hfull.trans ?_, hfullElement.trans ?_, harray⟩
  · decide
  · decide

end TypeAhead.Registry
