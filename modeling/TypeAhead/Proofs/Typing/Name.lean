/-
  TypeAhead.Proofs.Typing.Name — WORDS THAT ARE NAMES.

  A word that a text is made of is read as a name wherever it stands, whatever the token
  before it is, if no character after it goes on with it.

      ReadAsName          a text that is one name
      ReadAsName.token    a name in another text
-/
import Mathlib.Data.List.TakeWhile
import TypeAhead.Proofs.Fragment.Words
import TypeAhead.Proofs.Token.Ahead

namespace TypeAhead

open Text

variable {word : String} {more : List Char}

/-- A text that is one name, and nothing else. -/
def ReadAsName (word : String) : Prop :=
  tokenize word = .ok [⟨.identifier, word, 0⟩, .finish word.utf8ByteSize]

/-- No character at the front of the text goes on with a name. -/
def EndsName (more : List Char) : Prop := ∀ c ∈ more.head?, isWordChar c = false

theorem endsName_cons {c : Char} (h : isWordChar c = false) : EndsName (c :: more) := by
  rintro _ ⟨⟩
  exact h

namespace Scan

variable {previous : Option TokenKind} {start : Nat} {c : Char} {cs lexeme : List Char}

theorem isDigit_of_isAlpha (h : c.isAlpha = true) : c.isDigit = false := by
  have h : (decide (c.val ≥ 'A'.val ∧ c.val ≤ 'Z'.val) ||
      (decide (c.val ≥ 'a'.val) && decide (c.val ≤ 'z'.val))) = true := h
  simp only [Bool.or_eq_true, Bool.and_eq_true, decide_eq_true_eq, ge_iff_le,
    UInt32.le_iff_toNat_le] at h
  refine Bool.eq_false_iff.2 fun hdigit => ?_
  simp only [Char.isDigit, Bool.and_eq_true, decide_eq_true_eq, ge_iff_le, UInt32.le_iff_toNat_le] at hdigit
  have h9 : '9'.val.toNat = 57 := rfl
  have hA : 'A'.val.toNat = 65 := rfl
  have ha : 'a'.val.toNat = 97 := rfl
  omega

/-- No word starts with a digit. -/
theorem isDigit_of_startsWord (h : startsWord c = true) : c.isDigit = false := by
  simp only [startsWord, isAlphabetic, Bool.or_eq_true, Bool.and_eq_true, beq_iff_eq, decide_eq_true_eq] at h
  rcases h with (((((halpha | ⟨hfar, -⟩) | rfl) | rfl) | rfl) | rfl) | rfl
  · exact isDigit_of_isAlpha halpha
  · refine Bool.eq_false_iff.2 fun hdigit => ?_
    simp only [Char.isDigit, Bool.and_eq_true, decide_eq_true_eq, UInt32.le_iff_toNat_le] at hdigit
    have h9 : '9'.val.toNat = 57 := rfl
    have hc : c.toNat = c.val.toNat := rfl
    omega
  all_goals rfl

end Scan

/-- A name without `@` is its own name. -/
theorem plainName_of_not_mem (h : '@' ∉ word.toList) : plainName word = word := by
  unfold plainName
  split
  · rename_i hword
    exact absurd (hword ▸ List.mem_cons_self) h
  · rfl

/-- How a name is spelled. -/
theorem ReadAsName.plainWord (h : ReadAsName word) :
    ∃ first rest, word.toList = first :: rest ∧ Fragment.PlainWord first rest := by
  obtain ⟨c, ts, hopen, htokens, -⟩ := after_of_tokenize h
  obtain ⟨hcurrent, -⟩ := List.cons.inj htokens
  obtain ⟨-, -, htoken⟩ := Cursor.read_eq_ok hopen
  rw [← hcurrent] at htoken
  rcases Scan.token_cases htoken with ⟨-, hfinish, -⟩ | ⟨first, rest, kind, lexeme, hdrop, hlexeme, ht, -⟩
  · cases hfinish
  · obtain ⟨rfl, htext, hstart⟩ := Token.mk.inj ht
    have hword : word.toList = lexeme := by rw [htext, String.toList_ofList]
    -- The lexeme is as long as the text, so nothing stands before or behind it.
    have hsuffix : first :: rest <:+ word.toList := hdrop ▸ List.dropWhile_suffix _
    obtain ⟨⟨hbegins, -⟩, -⟩ := Scan.lexeme_isPrefix hlexeme
    have hwhole : lexeme = first :: rest :=
      hbegins.eq_of_length (Nat.le_antisymm hbegins.length_le (hword ▸ hsuffix.length_le))
    subst hwhole
    -- The lexer has read it as a word, so it is neither a symbol nor quoted.
    obtain ⟨hsymbol, hquote, hstarts, hread⟩ := Scan.word_of_lexeme hlexeme
    have hofWord := Scan.ofWord?_of_lexeme (nofun : none ≠ some TokenKind.dot) hlexeme
    obtain ⟨-, htake, hshort⟩ := Scan.word_eq_ok_iff.1 hread
    have hchars : ∀ c ∈ rest, isWordChar c = true := List.takeWhile_eq_self_iff.1 (List.cons.inj htake).2.symm
    exact ⟨first, rest, hword, hstarts, fun _ => Scan.symbol?_eq_none hsymbol, hquote,
      Scan.isBlank_of_dropWhile hdrop, hchars, hshort, hofWord⟩

/-- **A name is read wherever it stands**, if nothing after it goes on with it. -/
theorem ReadAsName.token (h : ReadAsName word) (hmore : EndsName more) (previous : Option TokenKind)
    (start : Nat) : Scan.token previous start (word.toList ++ more) = .ok (⟨.identifier, word, start⟩, more) := by
  obtain ⟨first, rest, hword, hplain⟩ := h.plainWord
  have htoken := hplain.token hmore previous start
  rwa [← hword, String.ofList_toList, ← List.cons_append, ← hword] at htoken

/-- The cursor on a name has what comes after it ahead. -/
theorem ReadAsName.read (h : ReadAsName word) (hmore : EndsName more) (size : Nat) (previous : Option TokenKind)
    (start : Nat) : Cursor.read size previous start (word.toList ++ more) =
      .ok ⟨size, start + word.utf8ByteSize, more, ⟨.identifier, word, start⟩⟩ :=
  Fragment.read_eq_of_token (h.token hmore previous start)

/-! ## Names after a dot. -/

/-- After a dot all of the word is a name, even if it is an operator elsewhere. -/
def ReadAfterDot (word : String) : Prop :=
  Scan.token (some .dot) 0 word.toList = .ok (⟨.identifier, word, 0⟩, [])

/-- Nothing stands before the name, and no digit comes first. -/
theorem ReadAfterDot.first (h : ReadAfterDot word) :
    ∃ first rest, word.toList = first :: rest ∧ first.isDigit = false := by
  have hblanks : word.toList.takeWhile isBlank = [] := by
    have hstart : 0 = 0 + byteSize (word.toList.takeWhile isBlank) := Scan.start_of_token h
    refine Classical.byContradiction fun hne => ?_
    have := byteSize_pos hne
    omega
  rcases Scan.token_cases h with ⟨-, hfinish, -⟩ | ⟨first, rest, kind, lexeme, hdrop, hlexeme, ht, -⟩
  · cases hfinish
  · obtain ⟨rfl, -⟩ := Token.mk.inj ht
    have hword : word.toList = first :: rest := by
      rw [← List.takeWhile_append_dropWhile (p := isBlank) (l := word.toList), hblanks, hdrop]
      rfl
    exact ⟨first, rest, hword, Scan.isDigit_of_startsWord (Scan.word_of_lexeme hlexeme).2.2.1⟩

/-- The cursor on a name after a dot. -/
theorem ReadAfterDot.read (h : ReadAfterDot word) (size start : Nat) :
    Cursor.read size (some .dot) start word.toList =
      .ok ⟨size, start + word.utf8ByteSize, [], ⟨.identifier, word, start⟩⟩ := by
  have htoken := Scan.token_shift start (some .dot) 0 word.toList
  rw [h, Nat.zero_add] at htoken
  rw [Fragment.read_eq_of_token htoken]
  simp [Token.shift, Token.stop]

end TypeAhead
