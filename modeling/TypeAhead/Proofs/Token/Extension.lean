/-
  TypeAhead.Proofs.Token.Extension — A TOKEN DOES NOT DEPEND ON WHAT IS AROUND IT.

  A token is the same wherever it stands in a text, whatever blanks are before it
  and whatever comes after it, as long as what comes after it starts with a
  character that goes on with no token.  Of the token before it only matters
  whether it is a dot.

      token_shift      the same characters at another offset
      token_append     more characters after a token
      token_append_dot a dot after a token
      token_blank      blanks before a token
-/
import TypeAhead.Proofs.Token.Lexeme

namespace TypeAhead

open Text

/-! ## §1. At another offset. -/

/-- The same fault `n` bytes further on. -/
def Fault.shift (n : Nat) (fault : Fault) : Fault := ⟨fault.cause, fault.position + n⟩

/-- The same token `n` bytes further on. -/
def Token.shift (n : Nat) (t : Token) : Token := { t with start := t.start + n }

namespace Scan

variable {previous : Option TokenKind} {start : Nat} {c e : Char} {cs rest more : List Char}

/-- A fault that lies `n` further is the fault with its offset shifted. -/
theorem error_shift {α : Type} {cause : Cause} {position position' n : Nat}
    (h : position' = position + n) :
    (.error ⟨cause, position'⟩ : Except Fault α) =
      (Except.error ⟨cause, position⟩ : Except Fault α).mapError (Fault.shift n) := by
  rw [h]
  rfl

/-- A word is read from its characters; the offset is only passed on. -/
theorem word_shift (n : Nat) (previous : Option TokenKind) (start : Nat) (first : Char)
    (cs : List Char) :
    word previous (start + n) first cs = (word previous start first cs).mapError (Fault.shift n) := by
  simp only [word]
  split <;> rfl

/-- What makes a number real is read from its characters; where an exponent has no digits, the fault moves
along. -/
theorem realPart_shift (n start : Nat) (cs : List Char) :
    realPart (start + n) cs = (realPart start cs).mapError (Fault.shift n) := by
  simp only [realPart]
  split
  · exact error_shift (by omega)
  · rfl

/-- A number is read from its characters. -/
theorem number_shift (n start : Nat) (cs : List Char) :
    number (start + n) cs = (number start cs).mapError (Fault.shift n) := by
  simp only [number]
  split
  · split
    · exact error_shift (by omega)
    · rfl
  · split
    · rw [Nat.add_right_comm, realPart_shift]
      cases realPart (start + (cs.takeWhile Char.isDigit).length)
        (cs.drop (cs.takeWhile Char.isDigit).length) <;> rfl
    · rfl

/-- A quoted literal is read from its characters, and its faults move along with its quote. -/
theorem quoted_shift (n start : Nat) (quote : Char) (cs : List Char) :
    quoted (start + n) quote cs = (quoted start quote cs).mapError (Fault.shift n) := by
  simp only [quoted]
  split
  · exact error_shift (by omega)
  · split <;> rfl

/-- The offset does not matter to what is read, and is added to that of a fault. -/
theorem lexeme_shift (n : Nat) (previous : Option TokenKind) (start : Nat) (c : Char)
    (cs : List Char) :
    lexeme previous (start + n) c cs = (lexeme previous start c cs).mapError (Fault.shift n) := by
  simp only [lexeme]
  split
  · rfl
  · split
    · exact quoted_shift n start c cs
    · split
      · exact word_shift n previous start c cs
      · split
        · exact number_shift n start (c :: cs)
        · rfl

/-- **The same characters at another offset are the same token there**, or the same fault. -/
theorem token_shift (n : Nat) (previous : Option TokenKind) (start : Nat) (cs : List Char) :
    token previous (start + n) cs = match token previous start cs with
      | .ok (t, rest) => .ok (t.shift n, rest)
      | .error fault => .error (fault.shift n) := by
  simp only [token]
  rw [Nat.add_right_comm]
  split
  · rfl
  · rw [lexeme_shift]
    cases lexeme previous (start + byteSize (cs.takeWhile isBlank)) _ _ <;> rfl

/-! ## §2. After another token. -/

/-- Of the token before only matters whether it is a dot. -/
theorem token_previous {previous' : Option TokenKind} (h : previous = some .dot ↔ previous' = some .dot)
    (start : Nat) (cs : List Char) : token previous start cs = token previous' start cs := by
  simp only [token, lexeme, word, wordKind, h]

/-! ## §3. After blanks. -/

/-- **Blanks before a token only move it.** -/
theorem token_blank {blanks : List Char} (h : ∀ c ∈ blanks, isBlank c = true)
    (previous : Option TokenKind) (start : Nat) (cs : List Char) :
    token previous start (blanks ++ cs) = token previous (start + byteSize blanks) cs := by
  simp only [token, List.takeWhile_append_of_pos h, List.dropWhile_append_of_pos h,
    byteSize_append, Nat.add_assoc]

/-! ## §4. Before other characters. -/

/-- The marks that go on with a symbol, a number or a literal. -/
def goesOn : List Char := ['=', '<', '>', '&', '|', '?', '.', '"', '\'', '+', '-']

/-- A character that goes on with no token. -/
def separates (c : Char) : Bool := !isWordChar c && !goesOn.contains c

/-- What separates tokens does not go on with a word. -/
theorem isWordChar_of_separates (h : separates e = true) : isWordChar e = false := by
  simp only [separates, Bool.and_eq_true, Bool.not_eq_true'] at h
  exact h.1

/-- What separates tokens does not go on with a symbol. -/
theorem ne_of_separates (h : separates e = true) (hc : c ∈ goesOn) : e ≠ c := by
  rintro rfl
  simp only [separates, Bool.and_eq_true, Bool.not_eq_true', List.contains_iff_mem.2 hc] at h
  exact absurd h.2 nofun

/-- What is in no word is no letter and no digit of ASCII. -/
theorem isAlpha_of_not_isWordChar (h : isWordChar e = false) : e.isAlpha = false ∧ e.isDigit = false := by
  simp only [isWordChar, isAlphanumeric, isAlphabetic, isNumeric, Bool.or_eq_false_iff] at h
  exact ⟨h.1.1.1, h.1.2.1⟩

/-- No letter is the lower case of what is in no word. -/
theorem toLower_ne_of_not_isWordChar (h : isWordChar e = false) (hc : c.isAlpha = true) :
    e.toLower ≠ c := by
  have halpha := (isAlpha_of_not_isWordChar h).1
  have hupper : ¬ (e.val ≥ 'A'.val ∧ e.val ≤ 'Z'.val) :=
    of_decide_eq_false (Bool.or_eq_false_iff.1 halpha).1
  have hlower : e.toLower = e := by
    unfold Char.toLower
    exact dif_neg hupper
  rw [hlower]
  rintro rfl
  rw [hc] at halpha
  cases halpha

/-- What is not part of a word is no hexadecimal digit. -/
theorem isHexDigit_of_not_isWordChar (h : isWordChar e = false) : isHexDigit e = false := by
  obtain ⟨halpha, hdigit⟩ := isAlpha_of_not_isWordChar h
  have hupper : ¬ (e.val ≥ 'A'.val ∧ e.val ≤ 'Z'.val) :=
    of_decide_eq_false (Bool.or_eq_false_iff.1 halpha).1
  have hlower : (decide (e.val ≥ 'a'.val) && decide (e.val ≤ 'z'.val)) = false :=
    (Bool.or_eq_false_iff.1 halpha).2
  simp only [isHexDigit, hdigit, Bool.false_or, Bool.or_eq_false_iff]
  constructor
  · refine Bool.eq_false_iff.2 fun hhex => ?_
    simp only [Bool.and_eq_true, decide_eq_true_eq] at hhex
    have : e.val ≥ 'a'.val ∧ e.val ≤ 'z'.val := ⟨hhex.1, UInt32.le_trans hhex.2 (by decide)⟩
    rw [decide_eq_true this.1, decide_eq_true this.2] at hlower
    cases hlower
  · refine Bool.eq_false_iff.2 fun hhex => ?_
    simp only [Bool.and_eq_true, decide_eq_true_eq] at hhex
    exact hupper ⟨hhex.1, UInt32.le_trans hhex.2 (by decide)⟩

/-- No word, number or literal goes on with `e` before `more`. -/
structure Parts (e : Char) (more : List Char) : Prop where
  word : isWordChar e = false
  quote : e ≠ '"' ∧ e ≠ '\''
  point : fraction (e :: more) = []

/-- What parts tokens is no digit. -/
theorem Parts.isDigit (h : Parts e more) : e.isDigit = false := (isAlpha_of_not_isWordChar h.word).2

/-- What parts tokens is none of the letters that a number may have. -/
theorem Parts.toLower_ne (h : Parts e more) (hc : c.isAlpha = true) : e.toLower ≠ c :=
  toLower_ne_of_not_isWordChar h.word hc

/-- What separates tokens parts them, whatever comes after it. -/
theorem parts_of_separates (he : separates e = true) (more : List Char) : Parts e more := by
  have hdot : e ≠ '.' := ne_of_separates he (by decide)
  refine ⟨isWordChar_of_separates he, ⟨ne_of_separates he (by decide), ne_of_separates he (by decide)⟩, ?_⟩
  simp [fraction, hdot]

/-- A dot is part of a number only where a digit follows. -/
theorem parts_dot (hc : c.isDigit = false) (more : List Char) : Parts '.' (c :: more) :=
  ⟨by decide, by decide, by simp [fraction, hc]⟩

/-- A run of characters of a class ends where a character follows that is not of the class. -/
theorem takeWhile_append_of_not {p : Char → Bool} (he : p e = false) (cs more : List Char) :
    (cs ++ e :: more).takeWhile p = cs.takeWhile p := by
  induction cs with
  | nil => exact List.takeWhile_cons_of_neg (by simp [he])
  | cons c cs ih =>
    cases hc : p c with
    | true => rw [List.cons_append, List.takeWhile_cons_of_pos hc, List.takeWhile_cons_of_pos hc, ih]
    | false =>
      rw [List.cons_append, List.takeWhile_cons_of_neg (by simp [hc]),
        List.takeWhile_cons_of_neg (by simp [hc])]

/-- What follows a run that was read is followed by the same characters. -/
theorem drop_append {part : List Char} (h : part <+: cs) (more : List Char) :
    (cs ++ more).drop part.length = cs.drop part.length ++ more :=
  List.drop_append_of_le_length h.length_le

/-- A symbol is told by the next character, which is the same or does not go on with one. -/
theorem symbol?_append (he : ∀ d ∈ goesOn, e ≠ d) (c : Char) (cs more : List Char) :
    symbol? c (cs ++ e :: more).head? = symbol? c cs.head? := by
  cases cs with
  | cons d cs => rfl
  | nil =>
    have hne : ∀ {d}, d ∈ goesOn → ¬ (some e = some d) := fun hd heq => he _ hd (Option.some.inj heq)
    simp only [List.nil_append, List.head?_cons, List.head?_nil, symbol?]
    split <;> simp only [hne (by decide : '=' ∈ goesOn), hne (by decide : '&' ∈ goesOn),
      hne (by decide : '>' ∈ goesOn), hne (by decide : '<' ∈ goesOn), hne (by decide : '?' ∈ goesOn),
      hne (by decide : '.' ∈ goesOn), hne (by decide : '|' ∈ goesOn), reduceCtorEq, if_false]

/-- A word is not longer for what comes after it. -/
theorem word_append (he : Parts e more) (previous : Option TokenKind) (start : Nat)
    (first : Char) (cs : List Char) :
    word previous start first (cs ++ e :: more) = word previous start first cs := by
  simp only [word, takeWhile_append_of_not (he.word)]

/-- The suffix of an integer is not longer for what comes after it. -/
theorem integerSuffix_append (he : Parts e more) (cs : List Char) :
    integerSuffix (cs ++ e :: more) = integerSuffix cs := by
  have hu : e.toLower ≠ 'u' := he.toLower_ne rfl
  have hl : e.toLower ≠ 'l' := he.toLower_ne rfl
  match cs with
  | [] =>
    cases more with
    | nil => simp [integerSuffix, hu, hl]
    | cons d more => simp [integerSuffix, hu, hl]
  | [c] =>
    simp only [List.cons_append, List.nil_append, integerSuffix, hu, hl, if_false, Bool.or_eq_true,
      decide_eq_true_eq]
    split <;> simp_all
  | c :: d :: cs => rfl

/-- A fraction is not longer for what comes after it. -/
theorem fraction_append (he : Parts e more) (cs : List Char) :
    fraction (cs ++ e :: more) = fraction cs := by
  match cs with
  | [] => exact he.point
  | c :: cs =>
    by_cases hc : c = '.'
    · subst hc
      simp only [fraction, List.cons_append, takeWhile_append_of_not he.isDigit]
    · simp [fraction, hc]

/-- The sign of an exponent is told by the first character. -/
theorem sign_append {cs : List Char} (h : cs ≠ []) (more : List Char) :
    sign (cs ++ more) = sign cs := by
  cases cs with
  | nil => exact absurd rfl h
  | cons c cs =>
    simp only [sign, List.cons_append]
    split <;> simp_all

/-- An exponent that is complete goes on no further. -/
theorem exponent_append (he : Parts e more) {cs part : List Char}
    (h : exponent cs = .ok part) : exponent (cs ++ e :: more) = .ok part := by
  rw [exponent_eq_ok_iff]
  rcases exponent_eq_ok_iff.1 h with ⟨hhead, hpart⟩ | ⟨c, tail, rfl, hmark, hdigits, hpart⟩
  · refine .inl ⟨fun d hd => ?_, hpart⟩
    cases cs with
    | nil =>
      cases hd
      exact he.toLower_ne rfl
    | cons c cs => exact hhead d hd
  · have hne : tail ≠ [] := by
      rintro rfl
      exact hdigits rfl
    have hrun : ((tail ++ e :: more).drop (sign (tail ++ e :: more)).length).takeWhile Char.isDigit =
        (tail.drop (sign tail).length).takeWhile Char.isDigit := by
      rw [sign_append hne, drop_append (sign_isPrefix tail), takeWhile_append_of_not he.isDigit]
    exact .inr ⟨c, tail ++ e :: more, rfl, hmark, hrun ▸ hdigits, by rw [hrun, sign_append hne, hpart]⟩

/-- The suffix of a real number is not longer for what comes after it. -/
theorem realSuffix_append (he : Parts e more) (cs : List Char) :
    realSuffix (cs ++ e :: more) = realSuffix cs := by
  cases cs with
  | nil =>
    simp [realSuffix, he.toLower_ne (rfl : 'f'.isAlpha = true),
      he.toLower_ne (rfl : 'd'.isAlpha = true),
      he.toLower_ne (rfl : 'm'.isAlpha = true)]
  | cons c cs => rfl

/-- All that makes a number real stays what it is.  A fault might go away, so that only success is kept. -/
theorem realPart_append (he : Parts e more) {cs part : List Char}
    (h : realPart start cs = .ok part) : realPart start (cs ++ e :: more) = .ok part := by
  simp only [realPart] at h ⊢
  rw [fraction_append he, drop_append (fraction_isPrefix cs)]
  split at h
  · cases h
  · rename_i exp hexp
    rw [exponent_append he hexp]
    simp only
    rw [drop_append (exponent_isPrefix hexp), realSuffix_append he]
    exact h

/-- The mark of hexadecimal digits does not depend on what comes after the text. -/
theorem hexMark?_append (he : Parts e more) (digits cs : List Char) :
    hexMark? digits (cs ++ e :: more) = hexMark? digits cs := by
  cases cs with
  | nil =>
    have hmark : e.toLower ≠ 'x' := he.toLower_ne rfl
    rw [List.nil_append, hexMark?_nil, hexMark?_cons, if_neg fun h => hmark h.2]
  | cons c cs => rw [List.cons_append, hexMark?_cons, hexMark?_cons]

/-- A number is not longer for what comes after it. -/
theorem number_append (he : Parts e more) {cs lexeme : List Char} {kind : TokenKind}
    (h : number start cs = .ok (kind, lexeme)) :
    number start (cs ++ e :: more) = .ok (kind, lexeme) := by
  have hdigits := he.isDigit
  simp only [number] at h ⊢
  rw [takeWhile_append_of_not hdigits, drop_append (List.takeWhile_prefix _), hexMark?_append he]
  -- Hexadecimal digits, or decimal ones with a suffix or with what makes a number real.
  split at h
  · rename_i mark hmark
    obtain ⟨-, -, rest, hrest⟩ := hexMark?_eq_some hmark
    rw [hrest] at h ⊢
    simp only [List.cons_append, Nat.add_comm 1, List.drop_succ_cons, List.drop_zero] at h ⊢
    rw [takeWhile_append_of_not (isHexDigit_of_not_isWordChar he.word), drop_append (List.takeWhile_prefix _),
      integerSuffix_append he]
    exact h
  · rw [integerSuffix_append he]
    split at h
    · rename_i hsuffix
      rw [if_pos hsuffix]
      split at h
      · cases h
      · rename_i part hpart
        rw [realPart_append he hpart]
        exact h
    · rename_i hsuffix
      rw [if_neg hsuffix]
      exact h

/-- How a literal goes on with a character that is no backslash. -/
theorem literal?_cons {quote : Char} (hc : c ≠ '\\') (read cs : List Char) :
    literal? quote read (c :: cs) =
      if c = quote then
        match cs with
        | d :: ds => if d = quote then literal? quote (d :: c :: read) ds
                     else some (c :: read).reverse
        | [] => some (c :: read).reverse
      else literal? quote (c :: read) cs := by
  rw [literal?.eq_def]
  split <;> rename_i heq <;> cases heq
  · exact absurd rfl hc
  · exact absurd rfl hc
  · rfl

/-- What is neither the last backslash of a text nor one that escapes is no backslash. -/
theorem ne_backslash (hlast : c = '\\' → cs = [] → False)
    (hescape : ∀ d ds, c = '\\' → cs = d :: ds → False) : c ≠ '\\' := by
  intro hc
  cases cs with
  | nil => exact hlast hc rfl
  | cons d ds => exact hescape d ds hc rfl

/-- A literal is closed at the same quote if no quote follows that would double it, or if something
stands behind it already. -/
theorem literal?_append {quote : Char} {read cs lexeme : List Char} (more : List Char)
    (h : literal? quote read cs = some lexeme)
    (hends : more.head? ≠ some quote ∨ lexeme.length < read.length + cs.length) :
    literal? quote read (cs ++ more) = some lexeme := by
  -- By the ways in which a literal goes on; only at its closing quote does what follows matter.
  fun_induction literal? quote read cs with
  | case1 => cases h
  | case2 => cases h
  | case3 read c cs ih =>
    rw [List.cons_append, List.cons_append, literal?]
    exact ih h (hends.imp_right fun hroom => by simp only [List.length_cons] at hroom ⊢; omega)
  | case4 read cs _ hesc ih =>
    rw [List.cons_append, List.cons_append, literal?_cons (fun hq => hesc _ _ hq rfl)]
    simpa using ih h (hends.imp_right fun hroom => by simp only [List.length_cons] at hroom ⊢; omega)
  | case5 read d cs hd _ hesc =>
    rw [List.cons_append, List.cons_append, literal?_cons (fun hq => hesc _ _ hq rfl)]
    simpa [hd] using h
  | case6 read hend _ =>
    -- Nothing stands behind the quote, so what comes there has to be something else.
    cases h
    have hmore : more.head? ≠ some quote := hends.resolve_right (by simp)
    cases more with
    | nil => rw [List.append_nil, literal?_cons (fun hq => hend hq rfl), if_pos rfl]
    | cons d more =>
      have hd : d ≠ quote := fun hd => hmore (congrArg some hd)
      rw [List.singleton_append, literal?_cons (fun hq => hend hq rfl), if_pos rfl]
      exact if_neg hd
  | case7 read c cs hend hesc hc ih =>
    rw [List.cons_append, literal?_cons (ne_backslash hend hesc), if_neg hc]
    exact ih h (hends.imp_right fun hroom => by simp only [List.length_cons] at hroom ⊢; omega)

/-- A quoted literal is not longer for what comes after it, unless a quote follows that doubles its last one.
-/
theorem quoted_append {quote : Char} {cs lexeme : List Char} {kind : TokenKind} (more : List Char)
    (h : quoted start quote cs = .ok (kind, lexeme))
    (hends : more.head? ≠ some quote ∨ lexeme.length < (quote :: cs).length) :
    quoted start quote (cs ++ more) = .ok (kind, lexeme) := by
  obtain ⟨hkind, hread, hsize⟩ := quoted_eq_ok_iff.1 h
  have hlonger : literal? quote [quote] (cs ++ more) = some lexeme :=
    literal?_append more hread (hends.imp_right fun hroom => by simpa [Nat.add_comm] using hroom)
  exact quoted_eq_ok_iff.2 ⟨hkind, hlonger, hsize⟩

/-- A lexeme is the same before what parts it from what follows, if no symbol goes on either. -/
theorem lexeme_append (he : Parts e more) {cs lexeme : List Char} {kind : TokenKind}
    (hsymbol : symbol? c (cs ++ e :: more).head? = symbol? c cs.head?)
    (h : Scan.lexeme previous start c cs = .ok (kind, lexeme)) :
    Scan.lexeme previous start c (cs ++ e :: more) = .ok (kind, lexeme) := by
  rw [lexeme_eq_iff]
  cases lexeme_eq_iff.1 h with
  | symbol kind hkind hread => exact .symbol kind (hsymbol.trans hkind) hread
  | literal hnone hquote hread =>
    refine .literal (hsymbol.trans hnone) hquote (quoted_append (e :: more) hread (.inl fun hhead => ?_))
    have hquoted : e = c := Option.some.inj hhead
    rcases hquote with rfl | rfl
    · exact he.quote.1 hquoted
    · exact he.quote.2 hquoted
  | word hnone hquote hstarts hread =>
    exact .word (hsymbol.trans hnone) hquote hstarts ((word_append he previous start c cs).trans hread)
  | number hnone hquote hstarts hdigit hread =>
    exact .number (hsymbol.trans hnone) hquote hstarts hdigit (number_append he hread)
  | other _ _ _ _ hread => cases hread

/-- The blanks before a token are the same, whatever comes after it. -/
theorem blanks_append {cs tail : List Char} (h : cs.dropWhile isBlank = c :: tail) (more : List Char) :
    (cs ++ more).takeWhile isBlank = cs.takeWhile isBlank ∧
      (cs ++ more).dropWhile isBlank = c :: (tail ++ more) := by
  constructor
  · rw [List.takeWhile_append, if_neg]
    intro hlength
    have hcs : cs.takeWhile isBlank ++ cs.dropWhile isBlank = cs :=
      List.takeWhile_append_dropWhile
    have := congrArg List.length hcs
    rw [List.length_append, hlength, h, List.length_cons] at this
    omega
  · rw [List.dropWhile_append, h]
    rfl

/-- A token is the same before more characters if its lexeme is. -/
theorem token_lengthen {cs rest : List Char} {t : Token} (h : token previous start cs = .ok (t, rest))
    (ht : t.kind ≠ .finish) (hlexeme : ∀ c tail start kind lexeme, cs.dropWhile isBlank = c :: tail →
      Scan.lexeme previous start c tail = .ok (kind, lexeme) → t = ⟨kind, String.ofList lexeme, start⟩ →
      rest = (c :: tail).drop lexeme.length →
      Scan.lexeme previous start c (tail ++ more) = .ok (kind, lexeme)) :
    token previous start (cs ++ more) = .ok (t, rest ++ more) := by
  rcases token_cases h with ⟨-, rfl, -⟩ | ⟨c, tail, kind, lexeme, hdrop, hread, hface, hrest⟩
  · exact absurd rfl ht
  · obtain ⟨htake, hdrop'⟩ := blanks_append hdrop more
    obtain ⟨⟨hpart, -⟩, -⟩ := lexeme_isPrefix hread
    have hleft := drop_append hpart more
    rw [List.cons_append] at hleft
    simp only [token, htake, hdrop', hlexeme c tail _ kind lexeme hdrop hread hface hrest, hleft]
    rw [hface, hrest]

/-- A token is the same before what parts it from what follows, if no symbol goes on either. -/
theorem token_extend (he : Parts e more) {cs rest : List Char} {t : Token}
    (hsymbol : ∀ c tail, cs.dropWhile isBlank = c :: tail →
      symbol? c (tail ++ e :: more).head? = symbol? c tail.head?)
    (h : token previous start cs = .ok (t, rest)) (ht : t.kind ≠ .finish) :
    token previous start (cs ++ e :: more) = .ok (t, rest ++ e :: more) :=
  token_lengthen h ht fun c tail _ _ _ hdrop hlexeme _ _ => lexeme_append he (hsymbol c tail hdrop) hlexeme

/-- **A token is the same before more characters**, if the first of them separates tokens. -/
theorem token_append (he : separates e = true) {cs rest : List Char} {t : Token} (more : List Char)
    (h : token previous start cs = .ok (t, rest)) (ht : t.kind ≠ .finish) :
    token previous start (cs ++ e :: more) = .ok (t, rest ++ e :: more) :=
  token_extend (parts_of_separates he more)
    (fun c tail _ => symbol?_append (fun _ hd => ne_of_separates he hd) c tail more) h ht

/-- But for the question mark, a symbol is the same before a dot. -/
theorem symbol?_dot (hc : c ≠ '?') : symbol? c (some '.') = symbol? c none := by
  unfold symbol?
  split <;> simp_all

/-- **A token is the same before a dot** that no digit follows, unless the text ends in a question
mark: the dot makes null propagation of that. -/
theorem token_append_dot (hc : c.isDigit = false) {cs rest : List Char} {t : Token} (more : List Char)
    (h : token previous start cs = .ok (t, rest)) (ht : t.kind ≠ .finish)
    (hlast : t.kind = .question → rest ≠ []) :
    token previous start (cs ++ '.' :: c :: more) = .ok (t, rest ++ '.' :: c :: more) := by
  refine token_extend (parts_dot hc more) (fun d tail hdrop => ?_) h ht
  cases tail with
  | cons e tail => rfl
  | nil =>
    by_cases hd : d = '?'
    · subst hd
      simp only [token, hdrop] at h
      cases h
      exact absurd rfl (hlast rfl)
    · exact symbol?_dot hd

end Scan

end TypeAhead
