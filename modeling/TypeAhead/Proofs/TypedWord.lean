/-
  TypeAhead.Proofs.TypedWord — TYPING A WORD DOES NOT CHANGE WHAT IS OFFERED.

  A completion depends on what stands in front of the word at the caret, less its
  last character, and on nothing else: not on the word, and not on what follows
  the caret.  So while a word is being typed the list stays as it was when the word
  was still empty; only the word gets longer.

      analyze_of_takeBytes?      an analysis reads what is before its caret
      Parted.complete_eq         a completion reads what is before the word
      complete_typedWord         the list while a word is typed, at every caret
-/
import TypeAhead.Proofs.NullPropagation

namespace TypeAhead

open Text

variable {s : Typing.Setting} {listing : Listing} {text : String} {caret : Nat}
  {before front word : List Char} {failure : Failure}

/-! ## §1. What an analysis reads. -/

/-- The analysis of what stands before a caret. -/
def Typing.Setting.analyzeCut (s : Typing.Setting) (before : List Char) : Except Failure Analysis := do
  let fragment ← Fragment.locate s.parsing (String.ofList (Analysis.withoutDot before))
  let resolution ← s.resolve fragment.text
  pure { resolution, fragment }

/-- **An analysis reads only what is before its caret.** -/
theorem analyze_of_takeBytes? (hsize : text.utf8ByteSize ≤ Limits.sourceBytes)
    (hcaret : takeBytes? caret text.toList = some before) :
    s.analyze text caret = s.analyzeCut before := by
  unfold Typing.Setting.analyze
  rw [truncate_of_takeBytes? hsize hcaret]
  rfl

/-- At an offset between two characters no analysis complains about the caret. -/
theorem analyze_ne_invalidCaret {a b : Nat} (hcaret : takeBytes? caret text.toList = some before) :
    s.analyze text caret ≠ .error (.invalidCaret a b) := by
  intro h
  rcases analyze_error_cases h with htruncate | ⟨cut, -, hlocate | ⟨r, -, hresolve⟩⟩
  · unfold Analysis.truncate at htruncate
    rw [hcaret] at htruncate
    dsimp only at htruncate
    split at htruncate <;> cases htruncate
  · -- The locator refuses null propagation only.
    obtain ⟨past, c, -, -, hfailure⟩ := Fragment.propagation_of_locate_error hlocate
    cases hfailure
  · have hexcused := Typing.compile_cases s r.text
    rw [compile_of_resolve hresolve] at hexcused
    exact hexcused

/-! ## §2. What a completion reads. -/

/-- The list for an analysis, at a word. -/
def Completion.ofAnalysis (s : Typing.Setting) (listing : Listing) (start entered : Nat)
    (analysis : Analysis) : Completion :=
  let (type, items) := itemsOf s listing analysis.resolution
  { type, isStatic := analysis.resolution.isTypeName, wordStart := start, entered, items }

/-- What is offered for the outcome of an analysis, at a word. -/
def Completion.offered (s : Typing.Setting) (listing : Listing) (start entered : Nat) :
    Except Failure Analysis → Except Failure (Option Completion)
  | .error failure => if failure.isFault then .ok none else .error failure
  | .ok analysis => .ok (some (ofAnalysis s listing start entered analysis))

/-- Where the word starts and how long it is matters for nothing else. -/
theorem Completion.offered_eq_map (start entered start' entered' : Nat)
    (outcome : Except Failure Analysis) :
    offered s listing start entered outcome = (offered s listing start' entered' outcome).map
      (Option.map fun c => { c with wordStart := start, entered }) := by
  cases outcome with
  | error failure =>
    by_cases h : failure.isFault = true
    · simp [offered, h, Except.map]
    · simp [offered, h, Except.map]
  | ok analysis => rfl

/-- **A completion reads what is in front of the word at the caret**, less its last character. -/
theorem Completion.Parted.complete_eq (h : Parted text caret front word) :
    s.complete listing text caret = offered s listing (byteSize front) (byteSize word)
      (s.analyze text (byteSize front.dropLast)) := by
  have hcaret := h.caret_eq
  have hentered : caret - byteSize front = byteSize word := by omega
  unfold Typing.Setting.complete
  rw [h.wordStart?]
  dsimp only
  rw [beforeWord_eq h.takeBytes?_front, hentered]
  cases s.analyze text (byteSize front.dropLast) with
  | error failure => rfl
  | ok analysis => rfl

/-- Where the caret is none, a completion says so. -/
theorem complete_of_not_isBoundary (h : ¬ IsBoundary text.toList caret) :
    s.complete listing text caret = .error (.invalidCaret caret text.utf8ByteSize) := by
  unfold Typing.Setting.complete Completion.wordStart?
  rw [(takeBytes?_eq_none_iff text.toList caret).2 h]
  rfl

/-- Where the caret is one, it does not. -/
theorem complete_ne_invalidCaret {a b : Nat} (h : IsBoundary text.toList caret) :
    s.complete listing text caret ≠ .error (.invalidCaret a b) := by
  intro hcomplete
  obtain ⟨before, hbefore⟩ := Option.isSome_iff_exists.1 ((isSome_takeBytes?_iff text.toList caret).2 h)
  obtain ⟨start, front, hword, hfront⟩ := wordStart?_eq_some hbefore
  rcases complete_error_cases hcomplete with ⟨hnone, -⟩ | ⟨start', hword', -, hanalyze⟩
  · cases hword.symm.trans hnone
  · cases hword.symm.trans hword'
    exact analyze_ne_invalidCaret (takeBytes?_beforeWord hfront) hanalyze

/-! ## §3. A word that is typed. -/

/-- A word after what does not end in one is the word at the caret behind it. -/
theorem Completion.parted_append {x w : String}
    (hx : ∀ c, x.toList.getLast? = some c → isWordChar c = false)
    (hw : ∀ c ∈ w.toList, isWordChar c = true) (y : String) :
    Parted (x ++ w ++ y) (x.utf8ByteSize + w.utf8ByteSize) x.toList w.toList := by
  refine ⟨?_, hw, hx⟩
  have hsize : x.utf8ByteSize + w.utf8ByteSize = byteSize (x.toList ++ w.toList) := by
    rw [byteSize_append, byteSize_toList, byteSize_toList]
  rw [hsize, String.toList_append, String.toList_append]
  exact takeBytes?_append _ _

/-- **Typing a word does not change what is offered.**  Behind a text that does not end in a word, a
completion in the middle or at the end of any word comes out as it does before the word is typed, be it
a list, nothing or a failure; of a list, only the bytes of the word that are entered differ.  At every
caret that falls between two characters, the word and what the analysis reads are cut there as well, and
what is subtracted is there to be subtracted.  Any other caret is reported as a wrong one, and no other
failure of a completion is. -/
theorem complete_typedWord (s : Typing.Setting) (listing : Listing) :
    (∀ x w y : String, (∀ c, x.toList.getLast? = some c → isWordChar c = false) →
      (∀ c ∈ w.toList, isWordChar c = true) → (x ++ w ++ y).utf8ByteSize ≤ Limits.sourceBytes →
      s.complete listing (x ++ w ++ y) (x.utf8ByteSize + w.utf8ByteSize) =
        (s.complete listing x x.utf8ByteSize).map (Option.map fun c =>
          { c with wordStart := x.utf8ByteSize, entered := w.utf8ByteSize })) ∧
    ∀ text caret,
      ((∃ a b, s.complete listing text caret = .error (.invalidCaret a b)) ↔
        ¬ IsBoundary text.toList caret) ∧
      (¬ IsBoundary text.toList caret →
        s.complete listing text caret = .error (.invalidCaret caret text.utf8ByteSize)) ∧
      (IsBoundary text.toList caret → ∃ start front word,
        Completion.wordStart? text caret = some start ∧
        takeBytes? start text.toList = some front ∧
        takeBytes? caret text.toList = some (front ++ word) ∧
        start + byteSize word = caret ∧
        takeBytes? (Completion.beforeWord text start) text.toList = some front.dropLast ∧
        Completion.beforeWord text start + ((front.getLast?.map Char.utf8Size).getD 0) = start ∧
        ∀ c, s.complete listing text caret = .ok (some c) →
          c.wordStart = start ∧ c.entered = byteSize word) := by
  constructor
  · intro x w y hx hw hsize
    have hall := Completion.parted_append hx hw y
    have hempty := Completion.parted_append (w := "") hx nofun ""
    rw [String.append_empty, String.append_empty, String.utf8ByteSize_empty, Nat.add_zero] at hempty
    have hle : x.utf8ByteSize ≤ (x ++ w ++ y).utf8ByteSize := by
      rw [String.utf8ByteSize_append, String.utf8ByteSize_append]
      omega
    -- Both analyses read what is in front of the word, less its last character.
    have hcut := takeBytes?_of_isPrefix hall.takeBytes?_front (List.dropLast_prefix x.toList)
    have hcut' := takeBytes?_of_isPrefix hempty.takeBytes?_front (List.dropLast_prefix x.toList)
    -- So they are one and the same, and only the length of the word is told apart.
    rw [hall.complete_eq, hempty.complete_eq, analyze_of_takeBytes? hsize hcut,
      analyze_of_takeBytes? (Nat.le_trans hle hsize) hcut', byteSize_toList, byteSize_toList]
    exact Completion.offered_eq_map _ _ _ _ _
  · intro text caret
    refine ⟨⟨?_, ?_⟩, complete_of_not_isBoundary, ?_⟩
    · rintro ⟨a, b, h⟩ hboundary
      exact complete_ne_invalidCaret hboundary h
    · intro h
      exact ⟨_, _, complete_of_not_isBoundary h⟩
    · intro hboundary
      obtain ⟨before, hbefore⟩ :=
        Option.isSome_iff_exists.1 ((isSome_takeBytes?_iff text.toList caret).2 hboundary)
      -- The text before the caret is parted where its last word begins.
      obtain ⟨front, word, -, hparted⟩ := Completion.parted_of_takeBytes? hbefore
      refine ⟨byteSize front, front, word, hparted.wordStart?, hparted.takeBytes?_front,
        hparted.before, hparted.caret_eq, takeBytes?_beforeWord hparted.takeBytes?_front, ?_, ?_⟩
      · rw [Completion.beforeWord_eq hparted.takeBytes?_front]
        rcases List.eq_nil_or_concat front with rfl | ⟨init, last, rfl⟩
        · rfl
        · simp
      · intro c hc
        rw [hparted.complete_eq] at hc
        unfold Completion.offered at hc
        split at hc
        · split at hc <;> cases hc
        · cases hc
          exact ⟨rfl, rfl⟩

/-- A word with a letter of two bytes, in the middle of a text, and the caret in the middle of it. -/
theorem complete_typedWord_of_letters :
    let s : Typing.Setting := ⟨.empty, {}, Predefined.objectType⟩
    (∀ c, "\"é\".".toList.getLast? = some c → isWordChar c = false) ∧
      (∀ c ∈ "Lé".toList, isWordChar c = true) ∧
      ("\"é\"." ++ "Lé" ++ "n + 1").utf8ByteSize ≤ Limits.sourceBytes ∧
      ¬ IsBoundary "\"é\".Lén + 1".toList 7 ∧
      s.complete {} ("\"é\"." ++ "Lé" ++ "n + 1") ("\"é\".".utf8ByteSize + "Lé".utf8ByteSize) =
        (s.complete {} "\"é\"." "\"é\".".utf8ByteSize).map (Option.map fun c =>
          { c with wordStart := 5, entered := 3 }) ∧
      ∃ a b, s.complete {} "\"é\".Lén + 1" 7 = .error (.invalidCaret a b) := by
  intro s
  have hx : ∀ c, "\"é\".".toList.getLast? = some c → isWordChar c = false := by
    intro c hc
    cases hc
    decide
  have hw : ∀ c ∈ "Lé".toList, isWordChar c = true := by
    intro c hc
    have hc : c = 'L' ∨ c = 'é' := by simpa using hc
    rcases hc with rfl | rfl
    · decide +kernel
    · decide +kernel
  have hsize : ("\"é\"." ++ "Lé" ++ "n + 1").utf8ByteSize ≤ Limits.sourceBytes := by decide
  -- The letter with an accent takes two bytes, and the caret is between them.
  have hinside : ¬ IsBoundary "\"é\".Lén + 1".toList 7 :=
    (takeBytes?_eq_none_iff _ _).1 (by decide +kernel)
  obtain ⟨htyped, hcarets⟩ := complete_typedWord s {}
  exact ⟨hx, hw, hsize, hinside, htyped "\"é\"." "Lé" "n + 1" hx hw hsize, (hcarets _ 7).1.2 hinside⟩

end TypeAhead
