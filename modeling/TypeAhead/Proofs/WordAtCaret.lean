/-
  TypeAhead.Proofs.WordAtCaret — THE WORD THAT ENDS AT A CARET.

  What stands before a caret is cut where the word starts that is being typed.
  The cut is counted in bytes, from the caret backwards, and so is the one before
  the last character in front of the word.  Both fall between two characters, and
  nothing is subtracted from less.

      isSome_takeBytes?_iff     offsets between two characters
      parted_of_takeBytes?      every caret has a word, which may be empty
      Parted.beforeWord         where the analysis before the word ends
-/
import TypeAhead.Completion

namespace TypeAhead

namespace Text

/-! ## §1. Offsets between two characters. -/

/-- The offset is not past the end of the text and not inside a character. -/
def IsBoundary (cs : List Char) (offset : Nat) : Prop :=
  ∃ front rest, cs = front ++ rest ∧ byteSize front = offset

/-- These are the offsets at which a text can be cut. -/
theorem isSome_takeBytes?_iff (cs : List Char) (offset : Nat) :
    (takeBytes? offset cs).isSome = true ↔ IsBoundary cs offset := by
  constructor
  · intro h
    obtain ⟨front, hfront⟩ := Option.isSome_iff_exists.1 h
    obtain ⟨rest, hcs, hsize⟩ := takeBytes?_eq_some hfront
    exact ⟨front, rest, hcs, hsize⟩
  · intro h
    obtain ⟨front, rest, hcs, hsize⟩ := h
    rw [hcs, ← hsize, takeBytes?_append]
    rfl

theorem takeBytes?_eq_none_iff (cs : List Char) (offset : Nat) :
    takeBytes? offset cs = none ↔ ¬ IsBoundary cs offset := by
  rw [← isSome_takeBytes?_iff, Option.not_isSome_iff_eq_none]

/-- A start of what can be cut can be cut. -/
theorem takeBytes?_of_isPrefix {cs front before : List Char} {offset : Nat}
    (h : takeBytes? offset cs = some before) (hfront : front <+: before) :
    takeBytes? (byteSize front) cs = some front := by
  obtain ⟨rest, hcs, -⟩ := takeBytes?_eq_some h
  obtain ⟨middle, hbefore⟩ := hfront
  rw [hcs, ← hbefore, List.append_assoc]
  exact takeBytes?_append front (middle ++ rest)

end Text

open Text

namespace Completion

/-! ## §2. The word and what is in front of it. -/

/-- Before the caret stands `front`, and then the word that ends there. -/
structure Parted (text : String) (caret : Nat) (front word : List Char) : Prop where
  before : takeBytes? caret text.toList = some (front ++ word)
  word : ∀ c ∈ word, isWordChar c = true
  /-- The word is as long as can be. -/
  front : ∀ c, front.getLast? = some c → isWordChar c = false

/-- **Before every caret ends a word**, which may be empty. -/
theorem parted_of_takeBytes? {text : String} {caret : Nat} {before : List Char}
    (h : takeBytes? caret text.toList = some before) :
    ∃ front word, before = front ++ word ∧ Parted text caret front word := by
  have hsplit : (before.reverse.dropWhile isWordChar).reverse ++
      (before.reverse.takeWhile isWordChar).reverse = before := by
    rw [← List.reverse_append, List.takeWhile_append_dropWhile, List.reverse_reverse]
  refine ⟨_, _, hsplit.symm, hsplit.symm ▸ h, ?_, ?_⟩
  · intro c hc
    exact List.all_eq_true.1 List.all_takeWhile c (List.mem_reverse.1 hc)
  · intro c hc
    rw [List.getLast?_reverse] at hc
    have hhead := List.head?_dropWhile_not isWordChar before.reverse
    rw [hc] at hhead
    exact hhead

section

variable {text : String} {caret : Nat} {front word : List Char}

/-- The word is counted backwards from the caret. -/
theorem Parted.wordSize (h : Parted text caret front word) :
    Completion.wordSize (front ++ word).reverse = byteSize word := by
  have hword : ∀ c ∈ word.reverse, isWordChar c = true := by
    intro c hc
    exact h.word c (List.mem_reverse.1 hc)
  have hfront : front.reverse.takeWhile isWordChar = [] := by
    cases hback : front.reverse with
    | nil => rfl
    | cons c rest =>
      have hlast : front.getLast? = some c := by
        rw [← List.head?_reverse, hback]
        rfl
      rw [List.takeWhile_cons, h.front c hlast]
      rfl
  unfold Completion.wordSize
  rw [List.reverse_append, List.takeWhile_append_of_pos hword, hfront, List.append_nil,
    byteSize_reverse]

/-- What stands before the caret is as long as it says. -/
theorem Parted.caret_eq (h : Parted text caret front word) :
    byteSize front + byteSize word = caret := by
  obtain ⟨rest, -, hsize⟩ := takeBytes?_eq_some h.before
  rw [← hsize, byteSize_append]

/-- **The word starts where what is in front of it ends.** -/
theorem Parted.wordStart? (h : Parted text caret front word) :
    Completion.wordStart? text caret = some (byteSize front) := by
  have hcaret := h.caret_eq
  unfold Completion.wordStart?
  rw [h.before, Option.map_some, h.wordSize]
  congr 1
  omega

theorem Parted.takeBytes?_front (h : Parted text caret front word) :
    takeBytes? (byteSize front) text.toList = some front :=
  takeBytes?_of_isPrefix h.before (List.prefix_append front word)

end

/-- **The analysis before a word ends before the last character in front of it.** -/
theorem beforeWord_eq {text : String} {front : List Char}
    (h : takeBytes? (byteSize front) text.toList = some front) :
    beforeWord text (byteSize front) = byteSize front.dropLast := by
  unfold beforeWord
  rw [h]
  rcases List.eq_nil_or_concat front with rfl | ⟨init, last, rfl⟩
  · rfl
  · simp

end Completion

/-- The word before a caret starts between two characters. -/
theorem wordStart?_eq_some {text : String} {caret : Nat} {before : List Char}
    (h : takeBytes? caret text.toList = some before) :
    ∃ start front, Completion.wordStart? text caret = some start ∧
      takeBytes? start text.toList = some front := by
  obtain ⟨front, word, -, hparted⟩ := Completion.parted_of_takeBytes? h
  exact ⟨byteSize front, front, hparted.wordStart?, hparted.takeBytes?_front⟩

/-- So does the character before that word. -/
theorem takeBytes?_beforeWord {text : String} {start : Nat} {front : List Char}
    (h : takeBytes? start text.toList = some front) :
    takeBytes? (Completion.beforeWord text start) text.toList = some front.dropLast := by
  obtain ⟨rest, -, rfl⟩ := takeBytes?_eq_some h
  rw [Completion.beforeWord_eq h]
  exact takeBytes?_of_isPrefix h (List.dropLast_prefix front)

end TypeAhead
