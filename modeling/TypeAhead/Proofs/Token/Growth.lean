/-
  TypeAhead.Proofs.Token.Growth — A TEXT THAT GOES ON.

  What comes at the end of a text can change its last tokens: a number may get an
  exponent, a word more letters, a quote a second one.  It changes none that have a
  character after them, as no token is told by more than that, save that behind a dot
  one more character tells whether it is a point.  So where null propagation stands in
  the part of a text before the caret, it stands in the text.

      token_grow       a token with characters after it
      Reaches.grow     all tokens up to such a one
      propagates_append
                       null propagation stays
-/
import TypeAhead.Proofs.Token.Coverage
import TypeAhead.Proofs.Token.Cut
import TypeAhead.Proofs.Token.Faults

namespace TypeAhead

open Text

namespace Scan

variable {previous : Option TokenKind} {start : Nat} {c : Char} {cs rest lexeme part : List Char}
  {kind : TokenKind}

/-! ## §1. Words and numbers. -/

/-- A run of characters of a class that is over stays over. -/
theorem takeWhile_grow {p : Char → Bool} (h : (cs.takeWhile p).length < cs.length) (more : List Char) :
    (cs ++ more).takeWhile p = cs.takeWhile p := by
  rw [List.takeWhile_append, if_neg (Nat.ne_of_lt h)]

/-- A word that ends before the text does stays as it is. -/
theorem word_grow (more : List Char) (h : word previous start c cs = .ok (kind, lexeme))
    (hroom : lexeme.length < (c :: cs).length) : word previous start c (cs ++ more) = .ok (kind, lexeme) := by
  obtain ⟨hkind, rfl, hlength⟩ := word_eq_ok_iff.1 h
  have htake : (cs.takeWhile isWordChar).length < cs.length := by simpa using hroom
  exact word_eq_ok_iff.2 ⟨hkind, by rw [takeWhile_grow htake more], hlength⟩

/-- A suffix that ends before the text does stays as it is. -/
theorem integerSuffix_grow (more : List Char) (h : (integerSuffix cs).length < cs.length) :
    integerSuffix (cs ++ more) = integerSuffix cs := by
  match cs with
  | [] => cases h
  | [c] =>
    cases more with
    | nil => rfl
    | cons d more =>
      simp only [List.cons_append, List.nil_append, integerSuffix, Bool.or_eq_true,
        decide_eq_true_eq] at h ⊢
      split at h <;> simp_all
  | c :: d :: cs => rfl

/-- A fraction stays as it is, unless nothing but its dot is there yet. -/
theorem fraction_grow (more : List Char) (h : (fraction cs).length < cs.length) (hdot : cs ≠ ['.']) :
    fraction (cs ++ more) = fraction cs := by
  match cs with
  | [] => cases h
  | c :: cs =>
    by_cases hc : c = '.'
    · subst hc
      -- A point without digits leaves the next character as one that is no digit.
      have htake : (cs.takeWhile Char.isDigit).length < cs.length := by
        simp only [fraction] at h
        split at h
        · rename_i hempty
          rw [List.isEmpty_iff.1 hempty]
          exact List.length_pos_iff.2 fun hnil => hdot (by rw [hnil])
        · simpa using h
      simp only [fraction, List.cons_append, takeWhile_grow htake]
    · simp [fraction, hc]

/-- An exponent that ends before the text does stays as it is. -/
theorem exponent_grow (more : List Char) (h : exponent cs = .ok part) (hroom : part.length < cs.length) :
    exponent (cs ++ more) = .ok part := by
  rw [exponent_eq_ok_iff]
  rcases exponent_eq_ok_iff.1 h with ⟨hhead, rfl⟩ | ⟨c, tail, rfl, hmark, hdigits, rfl⟩
  · cases cs with
    | nil => cases hroom
    | cons c cs => exact .inl ⟨hhead, rfl⟩
  · have hne : tail ≠ [] := by
      rintro rfl
      exact hdigits rfl
    have htake : ((tail.drop (sign tail).length).takeWhile Char.isDigit).length <
        (tail.drop (sign tail).length).length := by
      simp only [List.length_cons, List.length_append] at hroom
      rw [List.length_drop]
      omega
    have hrun : ((tail ++ more).drop (sign (tail ++ more)).length).takeWhile Char.isDigit =
        (tail.drop (sign tail).length).takeWhile Char.isDigit := by
      rw [sign_append hne, drop_append (sign_isPrefix tail), takeWhile_grow htake]
    exact .inr ⟨c, tail ++ more, rfl, hmark, hrun ▸ hdigits, by rw [hrun, sign_append hne]⟩

/-- The suffix of a real number is told by one character. -/
theorem realSuffix_grow (more : List Char) (h : cs ≠ []) : realSuffix (cs ++ more) = realSuffix cs := by
  cases cs with
  | nil => exact absurd rfl h
  | cons c cs => rfl

/-- What makes a number real stays, if it ends before the text does. -/
theorem realPart_grow (more : List Char) (h : realPart start cs = .ok part)
    (hroom : part.length < cs.length) (hdot : cs ≠ ['.']) : realPart start (cs ++ more) = .ok part := by
  simp only [realPart] at h ⊢
  split at h
  · cases h
  · rename_i exp hexp
    cases h
    simp only [List.length_append] at hroom
    have hrest : (cs.drop (fraction cs).length).length = cs.length - (fraction cs).length :=
      List.length_drop
    have hne : (cs.drop (fraction cs).length).drop exp.length ≠ [] := by
      rw [← List.length_pos_iff, List.length_drop]
      omega
    rw [fraction_grow more (by omega) hdot, drop_append (fraction_isPrefix cs),
      exponent_grow more hexp (by omega)]
    simp only [drop_append (exponent_isPrefix hexp), realSuffix_grow more hne]

/-- The mark of hexadecimal digits is told by one character. -/
theorem hexMark?_grow (digits more : List Char) (h : cs ≠ []) :
    hexMark? digits (cs ++ more) = hexMark? digits cs := by
  cases cs with
  | nil => exact absurd rfl h
  | cons c cs => rw [List.cons_append, hexMark?_cons, hexMark?_cons]

/-- A number has all the digits it starts with. -/
theorem length_digits_le (h : number start cs = .ok (kind, lexeme)) :
    (cs.takeWhile Char.isDigit).length ≤ lexeme.length := by
  simp only [number] at h
  split at h
  · rename_i mark hmark
    split at h
    · cases h
    · cases h
      rw [(hexMark?_eq_some hmark).1]
      simp
  · split at h
    · split at h
      · cases h
      · cases h
        rw [List.length_append]
        exact Nat.le_add_right _ _
    · cases h
      rw [List.length_append]
      exact Nat.le_add_right _ _

/-- A number with a character after it, and not only a dot, goes on no further. -/
theorem number_grow (more : List Char) (h : number start cs = .ok (kind, lexeme))
    (hroom : lexeme.length < cs.length) (hdot : cs.drop lexeme.length ≠ ['.']) :
    number start (cs ++ more) = .ok (kind, lexeme) := by
  have hle := length_digits_le h
  have hlength : (cs.drop (cs.takeWhile Char.isDigit).length).length =
      cs.length - (cs.takeWhile Char.isDigit).length := List.length_drop
  have hne : cs.drop (cs.takeWhile Char.isDigit).length ≠ [] := by
    rw [← List.length_pos_iff]
    omega
  simp only [number] at h ⊢
  -- The digits and the character after them are the same, so the number goes on in the same way.
  rw [takeWhile_grow (by omega), drop_append (List.takeWhile_prefix _), hexMark?_grow _ more hne]
  -- Hexadecimal digits, or decimal ones with a suffix or with what makes a number real.
  split at h
  · rename_i mark hmark
    obtain ⟨hzero, -, rest, hrest⟩ := hexMark?_eq_some hmark
    rw [hrest] at h ⊢
    rw [hrest, hzero] at hlength
    simp only [List.cons_append, Nat.add_comm 1, List.drop_succ_cons, List.drop_zero, List.length_cons,
      List.length_nil] at h hlength ⊢
    split at h
    · cases h
    · rename_i hhex
      cases h
      simp only [List.length_cons, List.length_append] at hroom
      have hsuffix : (integerSuffix (rest.drop (rest.takeWhile isHexDigit).length)).length <
          (rest.drop (rest.takeWhile isHexDigit).length).length := by
        rw [List.length_drop]
        omega
      rw [takeWhile_grow (by omega), if_neg hhex, drop_append (List.takeWhile_prefix _),
        integerSuffix_grow more hsuffix]
  · split at h
    · rename_i hsuffix
      have hnone : (integerSuffix (cs.drop (cs.takeWhile Char.isDigit).length)).length <
          (cs.drop (cs.takeWhile Char.isDigit).length).length := by
        rw [List.isEmpty_iff.1 hsuffix]
        exact List.length_pos_iff.2 hne
      rw [integerSuffix_grow more hnone, if_pos hsuffix]
      split at h
      · cases h
      · rename_i part hpart
        cases h
        -- A dot alone would be no part of the number, and so it would be all that is left.
        have hrest : cs.drop (cs.takeWhile Char.isDigit).length ≠ ['.'] := by
          intro hrest
          have hnone : part = [] := by
            rw [hrest] at hpart
            cases hpart
            rfl
          rw [hnone, List.append_nil] at hdot
          exact hdot hrest
        rw [List.length_append] at hroom
        rw [realPart_grow more hpart (by omega) hrest]
    · rename_i hsuffix
      cases h
      rw [List.length_append] at hroom
      rw [integerSuffix_grow more (by omega), if_neg hsuffix]

/-! ## §2. Tokens. -/

/-- A token that ends before the text does stays as it is, unless just a dot is left. -/
theorem lexeme_grow (more : List Char) (h : Scan.lexeme previous start c cs = .ok (kind, lexeme))
    (hroom : lexeme.length < (c :: cs).length) (hdot : (c :: cs).drop lexeme.length ≠ ['.']) :
    Scan.lexeme previous start c (cs ++ more) = .ok (kind, lexeme) := by
  -- A symbol is told by the next character, and there is one.
  have hhead : (cs ++ more).head? = cs.head? := by
    cases cs with
    | nil =>
      have hne := (lexeme_isPrefix h).1.2
      have hlength := List.length_pos_iff.2 hne
      simp only [List.length_singleton] at hroom
      omega
    | cons d cs => rfl
  rw [lexeme_eq_iff]
  -- Each kind of token is told by its first character, and grows in its own way.
  cases lexeme_eq_iff.1 h with
  | symbol kind hsymbol hread => exact .symbol kind (hhead ▸ hsymbol) hread
  | literal hsymbol hquote hread =>
    exact .literal (hhead ▸ hsymbol) hquote (quoted_append more hread (.inr hroom))
  | word hsymbol hquote hstarts hread =>
    exact .word (hhead ▸ hsymbol) hquote hstarts (word_grow more hread hroom)
  | number hsymbol hquote hstarts hdigit hread =>
    exact .number (hhead ▸ hsymbol) hquote hstarts hdigit (number_grow more hread hroom hdot)
  | other _ _ _ _ hread => cases hread

/-- Null propagation is spelled in one way. -/
theorem text_of_propagate (h : Scan.lexeme previous start c cs = .ok (.propagate, lexeme)) :
    lexeme = ['?', '.'] := by
  have htext := congrArg String.toList (text_of_lexeme h rfl (by decide))
  rwa [String.toList_ofList] at htext

/-- A null propagation stays one, even at the end of a text. -/
theorem propagate_grow (more : List Char) (h : Scan.lexeme previous start c cs = .ok (.propagate, lexeme)) :
    Scan.lexeme previous start c (cs ++ more) = .ok (.propagate, lexeme) := by
  obtain ⟨⟨hpart, -⟩, -⟩ := lexeme_isPrefix h
  rw [text_of_propagate h] at hpart ⊢
  obtain ⟨rfl, tail, rfl⟩ := List.cons_prefix_cons.1 hpart
  rfl

/-- There is a character, and more than a dot. -/
def Decides (rest : List Char) : Prop := rest ≠ [] ∧ rest ≠ ['.']

/-- Two more characters decide what is read before them. -/
theorem decides_of_length (h : 2 ≤ rest.length) : Decides rest := by
  constructor <;> (rintro rfl; simp at h)

/-- What comes after `rest` does not change the token before it: `rest` tells where the token ends, or it is
null propagation. -/
def Settled (t : Token) (rest : List Char) : Prop := Decides rest ∨ t.kind = .propagate

variable {t : Token}

/-- **A token that is settled is read again if the text goes on.** -/
theorem token_grow (more : List Char) (h : token previous start cs = .ok (t, rest)) (hroom : Settled t rest) :
    token previous start (cs ++ more) = .ok (t, rest ++ more) := by
  have ht : t.kind ≠ .finish := by
    rcases hroom with hroom | hroom
    · rcases token_cases h with ⟨-, -, rfl⟩ | ⟨c, tail, kind, lexeme, -, hlexeme, rfl, -⟩
      · exact absurd rfl hroom.1
      · exact (lexeme_isPrefix hlexeme).2
    · rw [hroom]
      decide
  refine token_lengthen h ht fun c tail _ kind lexeme _ hlexeme hface hrest => ?_
  -- Null propagation may be the last token: it has no longer form.
  rcases hroom with hroom | hroom
  · rw [hrest] at hroom
    have hlength := List.length_pos_iff.2 hroom.1
    rw [List.length_drop] at hlength
    exact lexeme_grow more hlexeme (by omega) hroom.2
  · rw [hface] at hroom
    cases hroom
    exact propagate_grow more hlexeme

/-- What a settled token is read from has two characters. -/
theorem length_of_settled (h : token previous start cs = .ok (t, rest)) (hroom : Settled t rest) :
    2 ≤ cs.length := by
  have hdropped : (cs.dropWhile isBlank).length ≤ cs.length := (List.dropWhile_sublist _).length_le
  rcases token_cases h with ⟨-, rfl, rfl⟩ | ⟨c, tail, kind, lexeme, hdrop, hlexeme, rfl, rfl⟩
  · rcases hroom with hroom | hroom
    · exact absurd rfl hroom.1
    · cases hroom
  · rw [hdrop] at hdropped
    rcases hroom with hroom | hroom
    · have hlength := List.length_pos_iff.2 hroom.1
      have hlexemeLength := List.length_pos_iff.2 (lexeme_isPrefix hlexeme).1.2
      rw [List.length_drop] at hlength
      omega
    · cases hroom
      obtain ⟨⟨hpart, -⟩, -⟩ := lexeme_isPrefix hlexeme
      have := hpart.length_le
      rw [text_of_propagate hlexeme] at this
      exact Nat.le_trans this hdropped

end Scan

/-! ## §3. Texts. -/

variable {text more cs : List Char} {past : List TokenKind} {d : Cursor}

/-- A token that is settled, read without and with more at the end of the text. -/
theorem cut_of_settled {offset : Nat} {previous : Option TokenKind}
    (h : Cursor.read (offset + byteSize cs) previous offset cs = .ok d)
    (hroom : Scan.Settled d.current d.rest) (more : List Char) (size : Nat) :
    ∃ c, Cursor.read size previous offset (cs ++ more) = .ok c ∧ Cut more c d := by
  obtain ⟨hsize, hoffset, htoken⟩ := Cursor.read_eq_ok h
  refine ⟨⟨size, d.current.stop, d.rest ++ more, d.current⟩, ?_, rfl, rfl, hoffset.symm, rfl, ?_⟩
  · rw [Cursor.read, Scan.token_grow more htoken hroom]
  · rw [hsize, hoffset, Scan.stop_of_token htoken]

/-- **The tokens up to one that is settled are the same if the text goes on.** -/
theorem Reaches.grow (h : Reaches text past d) (hroom : Scan.Settled d.current d.rest) (more : List Char) :
    ∃ c, Reaches (text ++ more) past c ∧ Cut more c d := by
  -- From token to token up to the one that is settled.
  induction h with
  | first hopen =>
    rw [Cursor.open?, ← Nat.zero_add (byteSize text)] at hopen
    obtain ⟨c, hopened, hcut⟩ := cut_of_settled hopen hroom more (byteSize (text ++ more))
    exact ⟨c, .first hopened, hcut⟩
  | @next past e d h he hnext ih =>
    rw [Cursor.next_of_not_finish he] at hnext
    -- Before a settled token all are settled.
    have hlength := Scan.length_of_settled (Cursor.read_eq_ok hnext).2.2 hroom
    obtain ⟨c, hreached, hcut⟩ := ih (.inl (Scan.decides_of_length hlength))
    rw [hcut.size_eq] at hnext
    obtain ⟨c', hread, hcut'⟩ := cut_of_settled hnext hroom more c.size
    have hc : c.current.isFinish = false := hcut.current_eq ▸ he
    have hnext' : c.next = .ok c' := by
      rw [Cursor.next_of_not_finish hc, hcut.current_eq, hcut.offset_eq, hcut.rest_eq]
      exact hread
    have hreached' := hreached.next hc hnext'
    rw [hcut.current_eq] at hreached'
    exact ⟨c', hreached', hcut'⟩

/-- **Null propagation in a part of a text from its start is one in the text.** -/
theorem propagates_append {position : Nat} (h : Propagates text position) (more : List Char) :
    Propagates (text ++ more) position := by
  obtain ⟨past, d, hreached, hkind, hstart⟩ := h
  obtain ⟨c, hgrown, hcut⟩ := hreached.grow (.inr hkind) more
  exact ⟨past, c, hgrown, hcut.current_eq ▸ hkind, hcut.current_eq ▸ hstart⟩

end TypeAhead
