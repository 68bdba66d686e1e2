/-
  TypeAhead.Proofs.Token.Neighbours — WHAT STANDS RIGHT AFTER A TOKEN.

  The characters right after a token may be others, and the token is still the same
  one.  It is so if they start alike, and for any token but a number it is enough that
  a letter stays a letter.  A number may take some letters for its own, as many as go on
  with it in a longer number, but not a whole word that no number has in it.

      token_of_sameStart    what starts alike
      token_before_word     a word after a token that is no number
      number_before_word    a word after a number
      token_of_word         a word by itself
-/
import TypeAhead.Proofs.Token.Growth
import TypeAhead.Proofs.Token.Numerals

namespace TypeAhead.Scan

open Text

variable {previous : Option TokenKind} {start : Nat} {a c : Char} {cs rest rest' lexeme w : List Char}
  {kind : TokenKind} {t : Token} {blanks : List Char}

/-! ## §1. Classes of lexemes. -/

/-- A numeral is read as a number. -/
theorem isNumber_of_numeral (h : Numeral kind w) : kind.isNumber = true := by
  cases h <;> rfl

/-- A word has all the letters that stand there. -/
theorem isWordChar_after_word (h : word previous start c cs = .ok (kind, lexeme)) :
    ∀ a ∈ ((c :: cs).drop lexeme.length).head?, isWordChar a = false := by
  obtain ⟨-, rfl, -⟩ := word_eq_ok_iff.1 h
  exact head?_drop_takeWhile isWordChar cs

/-- **A name is a word**, so no letter stands right after it. -/
theorem isWordChar_after_name (h : token previous start cs = .ok (t, rest)) (hkind : t.kind = .identifier) :
    ∀ a ∈ rest.head?, isWordChar a = false := by
  rcases token_cases h with ⟨-, rfl, -⟩ | ⟨c, tail, kind, lexeme, -, hlexeme, rfl, rfl⟩
  · cases hkind
  · have hkind : kind = .identifier := hkind
    subst hkind
    exact isWordChar_after_word (word_of_lexeme hlexeme).2.2.2

/-- A number is of no other kind. -/
theorem ne_of_isNumber {kind other : TokenKind} (h : kind.isNumber = true) (hother : other.isNumber = false) :
    kind ≠ other := by
  rintro rfl
  cases h.symm.trans hother

/-- Nothing but a dot starts with one. -/
theorem dot_of_token (h : token previous start cs = .ok (t, rest)) {lexeme : List Char}
    (htext : t.text.toList = '.' :: lexeme) : t.kind = .dot ∧ lexeme = [] := by
  rcases token_cases h with ⟨-, rfl, -⟩ | ⟨c, tail, kind, read, -, hlexeme, rfl, -⟩
  · cases htext
  · obtain rfl : read = '.' :: lexeme := String.toList_ofList.symm.trans htext
    obtain ⟨⟨hpart, -⟩, -⟩ := lexeme_isPrefix hlexeme
    obtain ⟨rfl, -⟩ := List.cons_prefix_cons.1 hpart
    have hdot : Scan.lexeme previous (start + byteSize (cs.takeWhile isBlank)) '.' tail = .ok (.dot, ['.']) := rfl
    cases hdot.symm.trans hlexeme
    exact ⟨rfl, rfl⟩

/-- A token, the blanks before it and what comes after it. -/
theorem exists_blanks_of_token (h : token previous start cs = .ok (t, rest)) (ht : t.kind ≠ .finish) :
    ∃ blanks, (∀ c ∈ blanks, isBlank c = true) ∧ cs = blanks ++ (t.text.toList ++ rest) := by
  rcases token_cases h with ⟨-, rfl, -⟩ | ⟨c, tail, kind, lexeme, hdrop, hlexeme, rfl, rfl⟩
  · exact absurd rfl ht
  · obtain ⟨⟨⟨rest, hrest⟩, -⟩, -⟩ := lexeme_isPrefix hlexeme
    refine ⟨cs.takeWhile isBlank, mem_takeWhile, ?_⟩
    rw [String.toList_ofList, ← hrest, List.drop_left, hrest, ← hdrop, List.takeWhile_append_dropWhile]

/-- A token starts behind the blanks before it. -/
theorem start_after_blanks (hread : token previous start (blanks ++ (t.text.toList ++ rest)) = .ok (t, rest)) :
    t.start = start + byteSize blanks := by
  have hstop := stop_of_token hread
  simp only [byteSize_append, byteSize_toList, Token.stop] at hstop
  omega

/-- A token is the same wherever it stands. -/
theorem token_elsewhere (h : token previous start cs = .ok (t, rest)) (start' : Nat) :
    ∃ t' : Token, t'.face = t.face ∧ token previous start' cs = .ok (t', rest) := by
  have hshift := token_shift start previous 0 cs
  have hshift' := token_shift start' previous 0 cs
  rw [Nat.zero_add] at hshift hshift'
  cases hzero : token previous 0 cs with
  | error fault =>
    rw [hzero, h] at hshift
    cases hshift
  | ok read =>
    rw [hzero, h] at hshift
    rw [hzero] at hshift'
    cases hshift
    exact ⟨read.1.shift start', rfl, hshift'⟩

/-! ## §2. What starts alike. -/

/-- Both start with the same character, or neither has one; and after a dot it is so once more. -/
def SameStart (rest rest' : List Char) : Prop :=
  rest.head? = rest'.head? ∧ (rest.head? = some '.' → rest.tail.head? = rest'.tail.head?)

/-- Behind blanks, what comes next does not matter. -/
theorem sameStart_of_blanks (hblank : ∀ c ∈ blanks, isBlank c = true) (hne : blanks ≠ []) :
    SameStart (blanks ++ rest) (blanks ++ rest') := by
  obtain ⟨c, blanks, rfl⟩ := List.exists_cons_of_ne_nil hne
  refine ⟨rfl, fun hdot => ?_⟩
  obtain rfl : c = '.' := by simpa using hdot
  cases hblank '.' List.mem_cons_self

/-- A token is the same if what follows the first characters after it is other. -/
theorem token_exchange (front : List Char) {more more' : List Char} (hfront : Decides front)
    (h : token previous start (cs ++ (front ++ more)) = .ok (t, front ++ more)) :
    token previous start (cs ++ (front ++ more')) = .ok (t, front ++ more') := by
  rw [← List.append_assoc] at h ⊢
  have hstop := stop_of_token h
  obtain ⟨rest, hrest, hcut⟩ := token_of_cut h (by simp only [byteSize_append] at hstop ⊢; omega)
  rw [← List.append_cancel_right hrest] at hcut
  exact token_grow more' hcut (.inl hfront)

/-- **A token is the same before what starts alike.** -/
theorem token_of_sameStart (h : token previous start (cs ++ rest) = .ok (t, rest)) (hsame : SameStart rest rest') :
    token previous start (cs ++ rest') = .ok (t, rest') := by
  obtain ⟨hhead, hdot⟩ := hsame
  cases rest with
  | nil =>
    cases rest' with
    | nil => exact h
    | cons => cases hhead
  | cons a rest =>
    cases rest' with
    | nil => cases hhead
    | cons a' rest' =>
      cases hhead
      -- Behind a dot one more character may matter.
      by_cases ha : a = '.'
      · subst ha
        have hnext := hdot rfl
        cases rest with
        | nil =>
          cases rest' with
          | nil => exact h
          | cons => cases hnext
        | cons b rest =>
          cases rest' with
          | nil => cases hnext
          | cons b' rest' =>
            cases hnext
            have hfront : Decides ['.', b] := ⟨nofun, by simp⟩
            exact token_exchange ['.', b] hfront h
      · have hfront : Decides [a] := ⟨nofun, by simpa using ha⟩
        exact token_exchange [a] hfront h

/-! ## §3. A word after a token. -/

/-- A token by itself, without what stands right after it. -/
theorem token_without (h : token previous start (cs ++ rest) = .ok (t, rest)) :
    token previous start cs = .ok (t, []) := by
  have hstop := stop_of_token h
  obtain ⟨rest', hrest, hcut⟩ := token_of_cut h (by simp only [byteSize_append] at hstop; omega)
  have hnil : rest' = [] := List.self_eq_append_left.1 hrest
  rwa [hnil] at hcut

/-- What a letter stands right after is no word. -/
theorem startsWord_before_word (ha : isWordChar a = true) (h : token previous start cs = .ok (t, a :: rest))
    {tail : List Char} (hdrop : cs.dropWhile isBlank = c :: tail) (hsymbol : symbol? c none = none)
    (hquote : ¬ (c = '"' ∨ c = '\'')) : startsWord c = false := by
  rcases token_cases h with ⟨-, -, hnil⟩ | ⟨c', tail', kind, lexeme, hdrop', hlexeme, -, hrest⟩
  · cases hnil
  · obtain ⟨rfl, rfl⟩ := List.cons.inj (hdrop.symm.trans hdrop')
    cases lexeme_eq_iff.1 hlexeme with
    | symbol _ hsome => cases (symbol?_eq_none hsymbol).symm.trans hsome
    | literal _ hmark => exact absurd hmark hquote
    | word _ _ _ hword =>
      have hend := isWordChar_after_word hword a (by rw [← hrest]; rfl)
      cases hend.symm.trans ha
    | number _ _ hno => exact hno
    | other _ _ hno => exact hno

/-- **A token that is no number is the same before another word.** -/
theorem token_before_word {more more' : List Char} (ha : isWordChar a = true) {a' : Char}
    (ha' : ∀ d ∈ goesOn, a' ≠ d) (h : token previous start (cs ++ a :: more) = .ok (t, a :: more))
    (hnumber : t.kind.isNumber = false) :
    token previous start (cs ++ a' :: more') = .ok (t, a' :: more') := by
  have ht : t.kind ≠ .finish := by
    rcases token_cases h with ⟨-, -, hnil⟩ | ⟨_, _, _, _, -, hlexeme, rfl, -⟩
    · cases hnil
    · exact (lexeme_isPrefix hlexeme).2
  refine token_lengthen (token_without h) ht fun c tail place kind lexeme hdrop hlexeme hface _ => ?_
  have hhead : symbol? c (tail ++ a' :: more').head? = symbol? c tail.head? := symbol?_append ha' c tail more'
  rw [lexeme_eq_iff]
  -- A token that is no number does not go on with a word, be it the one or the other.
  cases lexeme_eq_iff.1 hlexeme with
  | symbol kind hsymbol hread => exact .symbol kind (hhead.trans hsymbol) hread
  | literal hsymbol hquote hread =>
    refine .literal (hhead.trans hsymbol) hquote
      (quoted_append (a' :: more') hread (.inl fun hhead => ha' c ?_ (Option.some.inj hhead)))
    rcases hquote with rfl | rfl <;> decide
  | word hsymbol hquote hstarts =>
    have hno := startsWord_before_word ha h (blanks_append hdrop (a :: more)).2 (symbol?_eq_none hsymbol) hquote
    cases hno.symm.trans hstarts
  | number _ _ _ _ hread =>
    rw [hface] at hnumber
    cases hnumber.symm.trans (isNumber_of_number hread)
  | other _ _ _ _ hread => cases hread

/-! ## §4. A word by itself. -/

/-- Letters have small codes. -/
theorem lt_of_isAlpha (h : a.isAlpha = true) : a.toNat < 123 := by
  rcases Bool.or_eq_true_iff.1 (show (a.isUpper || a.isLower) = true from h) with h | h
  · have hrange : a.val ≥ 'A'.val ∧ a.val ≤ 'Z'.val := of_decide_eq_true h
    exact Nat.lt_of_le_of_lt (UInt32.le_iff_toNat_le.1 hrange.2) (by decide)
  · have hrange : a.val ≤ 'z'.val := of_decide_eq_true (Bool.and_eq_true_iff.1 h).2
    exact Nat.lt_of_le_of_lt (UInt32.le_iff_toNat_le.1 hrange) (by decide)

/-- A letter of ASCII starts a word, is part of one, and goes on with nothing else. -/
theorem class_of_isAlpha (h : a.isAlpha = true) : isBlank a = false ∧ symbol? a none = none ∧
    startsWord a = true ∧ isWordChar a = true ∧ a.isDigit = false ∧ ∀ d ∈ goesOn, a ≠ d := by
  have hall : ∀ n ∈ List.range 123, (Char.ofNat n).isAlpha = true → isBlank (Char.ofNat n) = false ∧
      symbol? (Char.ofNat n) none = none ∧ startsWord (Char.ofNat n) = true ∧ isWordChar (Char.ofNat n) = true ∧
      (Char.ofNat n).isDigit = false ∧ Char.ofNat n ∉ goesOn := by decide +kernel
  have hclass := hall a.toNat (List.mem_range.2 (lt_of_isAlpha h))
  rw [Char.ofNat_toNat] at hclass
  obtain ⟨hblank, hsymbol, hstarts, hword, hdigit, hmarks⟩ := hclass h
  exact ⟨hblank, hsymbol, hstarts, hword, hdigit, fun d hd hsame => hmarks (hsame ▸ hd)⟩

/-- **A word of letters is read as a whole** where no more of it follows. -/
theorem token_of_word (hne : w ≠ []) (hw : ∀ a ∈ w, a.isAlpha = true) (hlimit : w.length ≤ Limits.identifierLength)
    (hrest : ∀ a ∈ rest.head?, isWordChar a = false) (previous : Option TokenKind) (start : Nat) :
    token previous start (w ++ rest) =
      .ok (⟨wordKind previous (String.ofList w), String.ofList w, start⟩, rest) := by
  obtain ⟨c, w, rfl⟩ := List.exists_cons_of_ne_nil hne
  obtain ⟨hblank, hsymbol, hstarts, -, -, hmarks⟩ := class_of_isAlpha (hw c List.mem_cons_self)
  have hrun : (w ++ rest).takeWhile isWordChar = w :=
    takeWhile_run (fun a ha => (class_of_isAlpha (hw a (List.mem_cons_of_mem c ha))).2.2.2.1) hrest
  have hlexeme : Scan.lexeme previous start c (w ++ rest) =
      .ok (wordKind previous (String.ofList (c :: w)), c :: w) := by
    have hquote : ¬ (c = '"' ∨ c = '\'') := not_or.2 ⟨hmarks '"' (by decide), hmarks '\'' (by decide)⟩
    have hread : word previous start c (w ++ rest) = .ok (wordKind previous (String.ofList (c :: w)), c :: w) :=
      word_eq_ok_iff.2 ⟨rfl, by rw [hrun], hlimit⟩
    exact lexeme_eq_iff.2 (.word (symbol?_eq_none hsymbol) hquote hstarts hread)
  rw [List.cons_append, token_of_lexeme hblank hlexeme, ← List.cons_append, List.drop_left]

/-! ## §5. A word after a number. -/

/-- The letters that stand in numbers, in lower case. -/
def numberLetters : List Char := ['a', 'b', 'c', 'd', 'e', 'f', 'x', 'u', 'l', 'm']

/-- No number has all of the word in it, and where it starts no digit is missing. -/
structure Foreign (w : List Char) : Prop where
  alpha : ∀ a ∈ w, a.isAlpha = true
  first : ∀ a ∈ w.head?, a.toLower ≠ 'e' ∧ a.toLower ≠ 'x'
  odd : ∃ a ∈ w, a.toLower ∉ numberLetters

/-- A word that is foreign to numbers is not empty. -/
theorem Foreign.ne_nil (h : Foreign w) : w ≠ [] := by
  rintro rfl
  obtain ⟨a, ha, -⟩ := h.odd
  cases ha

/-- The letters of hexadecimal digits are among those of numbers. -/
theorem toLower_of_isHexDigit (h : isHexDigit a = true) (halpha : a.isAlpha = true) :
    a.toLower ∈ numberLetters := by
  have hall : ∀ n ∈ List.range 123, isHexDigit (Char.ofNat n) = true → (Char.ofNat n).isAlpha = true →
      (Char.ofNat n).toLower ∈ numberLetters := by decide +kernel
  have hlow := lt_of_isAlpha halpha
  have hletter := hall a.toNat (List.mem_range.2 hlow)
  rw [Char.ofNat_toNat] at hletter
  exact hletter h halpha

/-- All letters among the characters are these, in lower or upper case. -/
def LettersIn (letters cs : List Char) : Prop := ∀ a ∈ cs, a.isAlpha = true → a.toLower ∈ letters

section

variable {letters ds f s : List Char}

/-- Two parts with no other letters make a whole with no other letters. -/
theorem LettersIn.append (h : LettersIn letters cs) (h' : LettersIn letters ds) : LettersIn letters (cs ++ ds) :=
  List.forall_mem_append.2 ⟨h, h'⟩

theorem LettersIn.cons (h : c.isAlpha = true → c.toLower ∈ letters) (h' : LettersIn letters cs) :
    LettersIn letters (c :: cs) :=
  List.forall_mem_cons.2 ⟨h, h'⟩

/-- Digits have no letters at all. -/
theorem lettersIn_of_digits (hds : Digits ds) : LettersIn letters ds := by
  intro a ha halpha
  cases (hds.2 a ha).symm.trans (class_of_isAlpha halpha).2.2.2.2.1

/-- Fractions have no letters. -/
theorem lettersIn_of_fraction (hf : f = [] ∨ Fraction f) : LettersIn letters f := by
  rcases hf with rfl | ⟨ds, hds, rfl⟩
  · exact nofun
  · exact .cons nofun (lettersIn_of_digits hds)

/-- Signs have no letters. -/
theorem lettersIn_of_sign (hsign : Sign s) : LettersIn letters s := by
  rcases hsign with rfl | rfl | rfl
  · exact nofun
  · exact .cons nofun nofun
  · exact .cons nofun nofun

/-- An exponent has the letter `e` only. -/
theorem lettersIn_of_exponent (he : s = [] ∨ Exponent s) (hmem : 'e' ∈ letters) : LettersIn letters s := by
  rcases he with rfl | ⟨e, sg, ds, he, hsign, hds, rfl⟩
  · exact nofun
  · exact (LettersIn.cons (fun _ => he ▸ hmem) (lettersIn_of_sign hsign)).append (lettersIn_of_digits hds)

/-- The suffix of an integer has letters of numbers only. -/
theorem lettersIn_of_mark (hs : IntegerMark s) : LettersIn numberLetters s := by
  intro a ha _
  have hlower := List.mem_map_of_mem (f := Char.toLower) ha
  have hall : ∀ marks ∈ [[], ['u'], ['u', 'l'], ['l'], ['l', 'u']], marks ⊆ numberLetters := by decide
  exact hall _ hs hlower

/-- The letters of a number. -/
theorem lettersIn_of_numeral (h : Numeral kind w) : LettersIn numberLetters w := by
  cases h with
  | decimal hds hs => exact (lettersIn_of_digits hds).append (lettersIn_of_mark hs)
  | @hexadecimal x ds s hx hds hs =>
    have hhex : LettersIn numberLetters ds := fun a ha => toLower_of_isHexDigit (hds.2 a ha)
    exact (LettersIn.cons (by decide) (.cons (fun _ => by rw [hx]; decide) hhex)).append (lettersIn_of_mark hs)
  | @real ds f e s hds hf he hs =>
    have hmark : LettersIn numberLetters s := by
      rcases hs with rfl | ⟨c, rfl, hc⟩
      · exact nofun
      · have hall : ['f', 'd', 'm'] ⊆ numberLetters := by decide
        exact .cons (fun _ => hall hc) nofun
    exact (((lettersIn_of_digits hds).append (lettersIn_of_fraction hf)).append
      (lettersIn_of_exponent he (by decide))).append hmark

/-- The letters before a missing digit. -/
theorem lettersIn_of_missesDigit {front : List Char} (h : MissesDigit front rest) :
    LettersIn ['e', 'x'] front := by
  cases h with
  | hexadecimal hx => exact .cons (by decide) (.cons (fun _ => by rw [hx]; decide) nofun)
  | exponent hds hf he hsign =>
    exact ((lettersIn_of_digits hds).append (lettersIn_of_fraction hf)).append
      (.cons (fun _ => by rw [he]; decide) (lettersIn_of_sign hsign))

end

/-- A number starts with a digit. -/
theorem exists_head_of_numeral (h : Numeral kind w) : ∃ c cs, w = c :: cs ∧ c.isDigit = true := by
  have hhead : ∀ {ds : List Char} (rest : List Char), Digits ds →
      ∃ c cs, ds ++ rest = c :: cs ∧ c.isDigit = true := by
    intro ds rest hds
    obtain ⟨c, ds, rfl⟩ := List.exists_cons_of_ne_nil hds.1
    exact ⟨c, ds ++ rest, rfl, hds.2 c List.mem_cons_self⟩
  cases h with
  | decimal hds => exact hhead _ hds
  | @hexadecimal x ds s => exact ⟨'0', x :: ds ++ s, rfl, rfl⟩
  | @real ds f e s hds =>
    rw [List.append_assoc, List.append_assoc]
    exact hhead _ hds

/-- Where a digit is missing, it is missing as well if what follows is cut off. -/
theorem MissesDigit.cut {front : List Char} (h : MissesDigit front (rest ++ rest')) : MissesDigit front rest := by
  have hhead : ∀ {p : Char → Prop}, (∀ c ∈ (rest ++ rest').head?, p c) → ∀ c ∈ rest.head?, p c := by
    intro p hp c hc
    cases rest with
    | nil => cases hc
    | cons d rest => exact hp c hc
  cases h with
  | hexadecimal hx hrest => exact .hexadecimal hx (hhead hrest)
  | exponent hds hf he hsign hunsigned hrest =>
    exact .exponent hds hf he hsign (fun hnil => hhead (hunsigned hnil)) (hhead hrest)

/-- No digit is missing in a number. -/
theorem not_missesDigit_of_numeral {front : List Char} (hw : Numeral kind (front ++ rest)) :
    ¬ MissesDigit front rest := by
  intro h
  have hfault : number 0 (front ++ rest) = .error ⟨.digitExpected, 0 + front.length⟩ := number_of_missesDigit h
  cases hfault.symm.trans (number_of_numeral hw)

/-- No digit is missing where a word comes right after a number. -/
theorem not_missesDigit_before_word (hw : Numeral kind w) {word front : List Char} (hword : Foreign word)
    (h : w ++ (word ++ rest) = front ++ rest') : ¬ MissesDigit front rest' := by
  intro hmisses
  rcases List.append_eq_append_iff.1 h with ⟨more, rfl, hmore⟩ | ⟨more, rfl, rfl⟩
  · -- The word would have to go on with the number.
    obtain ⟨a, word, rfl⟩ := List.exists_cons_of_ne_nil hword.ne_nil
    cases more with
    | nil =>
      have hmisses : MissesDigit w ([] ++ rest') := by rwa [List.append_nil] at hmisses
      exact not_missesDigit_of_numeral (by rwa [List.append_nil]) hmisses.cut
    | cons b more =>
      obtain ⟨rfl, -⟩ := List.cons.inj hmore
      have hletter := lettersIn_of_missesDigit hmisses a (by simp) (hword.alpha a List.mem_cons_self)
      obtain ⟨he, hx⟩ := hword.first a rfl
      simp [he, hx] at hletter
  · -- The number itself would miss one.
    exact not_missesDigit_of_numeral hw hmisses.cut

/-- **A number takes some letters of a word right after it for its own, but not all of them.** -/
theorem number_before_word (hw : Numeral kind w) {word : List Char} (hword : Foreign word) (start : Nat)
    (rest : List Char) : ∃ kind' taken left, word = taken ++ left ∧ left ≠ [] ∧ Numeral kind' (w ++ taken) ∧
      number start (w ++ (word ++ rest)) = .ok (kind', w ++ taken) := by
  obtain ⟨c, cs, hcs, hdigit⟩ := exists_head_of_numeral hw
  have hsplit : w ++ (word ++ rest) = c :: (cs ++ (word ++ rest)) := by rw [hcs, List.cons_append]
  -- No digit is missing, and the number that is read takes a part of the word at most.
  cases hnumber : number start (w ++ (word ++ rest)) with
  | error fault =>
    obtain ⟨front, rest', hfront, hmisses, -⟩ := missesDigit_of_number hdigit (hsplit ▸ hnumber)
    exact absurd hmisses (not_missesDigit_before_word hw hword (hsplit.trans hfront))
  | ok read =>
    obtain ⟨kind', v⟩ := read
    obtain ⟨hv, hprefix, hlongest⟩ := number_longest hdigit (hsplit ▸ hnumber)
    rw [← hsplit] at hprefix hlongest
    obtain ⟨⟨taken, rfl⟩, -⟩ := hlongest kind w hw (List.prefix_append _ _)
    have htaken : taken <+: word ++ rest := (List.prefix_append_right_inj w).1 hprefix
    -- The number would have a letter in it that no number has.
    have hnot : ¬ word <+: taken := by
      intro hall
      obtain ⟨a, ha, hodd⟩ := hword.odd
      have hmem : a ∈ w ++ taken := List.mem_append_right w (hall.subset ha)
      exact hodd (lettersIn_of_numeral hv a hmem (hword.alpha a ha))
    rcases List.prefix_or_prefix_of_prefix htaken (List.prefix_append word rest) with ⟨left, rfl⟩ | hall
    · refine ⟨kind', taken, left, rfl, ?_, hv, rfl⟩
      rintro rfl
      exact hnot (by simp)
    · exact absurd hall hnot

/-- **A token that is a number, before a word.** -/
theorem token_number_before_word (h : token previous start cs = .ok (t, rest)) (hkind : t.kind.isNumber = true)
    {word blanks : List Char} (hword : Foreign word) (hblank : ∀ c ∈ blanks, isBlank c = true)
    (previous' : Option TokenKind) (start' : Nat) (rest' : List Char) :
    ∃ (t' : Token) (taken left : List Char), word = taken ++ left ∧ left ≠ [] ∧ t'.kind.isNumber = true ∧
      token previous' start' (blanks ++ (t.text.toList ++ (word ++ rest'))) = .ok (t', left ++ rest') := by
  have hnumeral := numeral_of_token h hkind
  obtain ⟨kind', taken, left, hsplit, hne, hnumeral', hnumber⟩ :=
    number_before_word hnumeral hword (start' + byteSize blanks) rest'
  obtain ⟨c, cs, hcs, hdigit⟩ := exists_head_of_numeral hnumeral
  obtain ⟨hblank', hlexeme⟩ := lexeme_of_isDigit previous' (start' + byteSize blanks) hdigit
    (cs ++ (word ++ rest'))
  have hread : Scan.lexeme previous' (start' + byteSize blanks) c (cs ++ (word ++ rest')) =
      .ok (kind', t.text.toList ++ taken) := by
    rw [hlexeme, ← hnumber, hcs, List.cons_append]
  refine ⟨⟨kind', String.ofList (t.text.toList ++ taken), start' + byteSize blanks⟩, taken, left, hsplit, hne,
    isNumber_of_numeral hnumeral', ?_⟩
  rw [token_blank hblank, hcs, List.cons_append, token_of_lexeme hblank' hread, ← List.cons_append, ← hcs, hsplit,
    List.append_assoc taken, ← List.append_assoc, List.drop_left]

end TypeAhead.Scan
