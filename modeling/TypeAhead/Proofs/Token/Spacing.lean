/-
  TypeAhead.Proofs.Token.Spacing — TOKENS WITH BLANKS BETWEEN THEM.

  A token is read again where the text is cut off anywhere behind it: no character
  that comes after it was needed to tell where it ends.  So it is also read again
  when it stands alone.  A blank goes on with no token.  So the tokens of a text,
  written with blanks between any two of them, are read again one after the other,
  and which blanks there are does not matter.

      lexeme_of_isPrefix   a lexeme, cut off behind it
      token_alone          a token by itself
      separates_of_blank   a blank goes on with no token
-/
import TypeAhead.Proofs.Token.Extension

namespace TypeAhead

open Text

namespace Scan

variable {previous : Option TokenKind} {start start' : Nat} {c : Char} {cs part rest : List Char}

/-! ## §1. Parts of numbers, cut off behind what was read. -/

/-- A run of characters is the same in what is left of them, if all of the run is. -/
theorem takeWhile_of_isPrefix {p : Char → Bool} {front : List Char} (hfront : front <+: cs)
    (h : cs.takeWhile p <+: front) : front.takeWhile p = cs.takeWhile p := by
  obtain ⟨rest, rfl⟩ := hfront
  rw [List.takeWhile_append] at h ⊢
  split at h
  · rename_i hlength
    rw [if_pos hlength]
    have hall : front.takeWhile p = front := (List.takeWhile_prefix p).eq_of_length hlength
    have hnil : rest.takeWhile p = [] := by
      have := h.length_le
      rw [List.length_append] at this
      exact List.length_eq_zero_iff.1 (by omega)
    rw [hnil, List.append_nil, hall]
  · rename_i hlength
    rw [if_neg hlength]

/-- What was read first is cut off alike. -/
theorem drop_of_isPrefix {first second front : List Char} (hfront : front <+: cs)
    (h : first ++ second <+: front) :
    front.drop first.length <+: cs.drop first.length ∧ second <+: front.drop first.length := by
  obtain ⟨more, rfl⟩ := h
  obtain ⟨rest, rfl⟩ := hfront
  simp only [List.append_assoc, List.drop_left]
  exact ⟨by simp, List.prefix_append _ _⟩

/-- A suffix is read from what is left of the text, if that holds it. -/
theorem integerSuffix_of_isPrefix {front : List Char} (hfront : front <+: cs)
    (h : integerSuffix cs <+: front) : integerSuffix front = integerSuffix cs := by
  obtain ⟨rest, rfl⟩ := hfront
  -- Two characters tell the suffix, so that at most one of them may be cut off.
  match front, rest with
  | [], rest => exact (List.prefix_nil.1 h).symm
  | [c], [] => rfl
  | [c], d :: rest =>
    -- A suffix of two letters would not fit.
    have hpair : ∀ {p : Prop} [Decidable p], (if p then [c, d] else [c]) <+: [c] → ¬ p := by
      intro p _ hp h
      rw [if_pos h] at hp
      exact absurd hp.length_le (by simp)
    simp only [List.cons_append, List.nil_append, integerSuffix] at h ⊢
    by_cases hu : c.toLower = 'u'
    · rw [if_pos hu] at h ⊢
      simp [hu, if_neg (hpair h)]
    · by_cases hl : c.toLower = 'l'
      · rw [if_neg hu, if_pos hl] at h ⊢
        simp [hl, if_neg (hpair h)]
      · simp [hu, hl]
  | c :: d :: front, rest => rfl

/-- A fraction is read from what is left of the text, if that holds it. -/
theorem fraction_of_isPrefix {front : List Char} (hfront : front <+: cs)
    (h : fraction cs <+: front) : fraction front = fraction cs := by
  obtain ⟨rest, rfl⟩ := hfront
  cases front with
  | nil => exact (List.prefix_nil.1 h).symm
  | cons c front =>
    by_cases hc : c = '.'
    · subst hc
      have hdigits : front.takeWhile Char.isDigit = (front ++ rest).takeWhile Char.isDigit := by
        refine takeWhile_of_isPrefix (List.prefix_append _ _) ?_
        simp only [List.cons_append, fraction] at h
        split at h
        · rename_i hempty
          rw [List.isEmpty_iff.1 hempty]
          exact List.nil_prefix
        · exact (List.cons_prefix_cons.1 h).2
      simp only [List.cons_append, fraction, hdigits]
    · simp [fraction, hc]

/-- An exponent is read from what is left of the text, if that holds it. -/
theorem exponent_of_isPrefix {front : List Char} (hfront : front <+: cs)
    (h : exponent cs = .ok part) (hpart : part <+: front) : exponent front = .ok part := by
  obtain ⟨rest, rfl⟩ := hfront
  rw [exponent_eq_ok_iff]
  rcases exponent_eq_ok_iff.1 h with ⟨hhead, rfl⟩ | ⟨c, tail, hcs, hmark, hdigits, rfl⟩
  · refine .inl ⟨fun c hc => hhead c ?_, rfl⟩
    rw [List.head?_append, Option.mem_def.1 hc]
    rfl
  · cases front with
    | nil => cases List.prefix_nil.1 hpart
    | cons d front =>
      rw [List.cons_append] at hcs
      obtain ⟨rfl, rfl⟩ := List.cons.inj hcs
      rw [List.cons_append, List.cons_prefix_cons] at hpart
      -- The digits are before the cut, and so there is something behind the mark.
      have hne : front ≠ [] := by
        rintro rfl
        exact hdigits (List.append_eq_nil_iff.1 (List.prefix_nil.1 hpart.2)).2
      have hsign : sign (front ++ rest) = sign front := sign_append hne rest
      rw [hsign] at hpart hdigits ⊢
      obtain ⟨hrest, hrun⟩ := drop_of_isPrefix (List.prefix_append front rest) hpart.2
      have htake := takeWhile_of_isPrefix hrest hrun
      exact .inr ⟨d, front, rfl, hmark, htake ▸ hdigits, by rw [htake]⟩

/-- The suffix of a real number is read from what is left of the text. -/
theorem realSuffix_of_isPrefix {front : List Char} (hfront : front <+: cs)
    (h : realSuffix cs <+: front) : realSuffix front = realSuffix cs := by
  obtain ⟨rest, rfl⟩ := hfront
  cases front with
  | nil => exact (List.prefix_nil.1 h).symm
  | cons c front => rfl

/-- All that makes a number real is read from what is left of the text, if that holds it. -/
theorem realPart_of_isPrefix {front : List Char} (hfront : front <+: cs)
    (h : realPart start cs = .ok part) (hpart : part <+: front) :
    realPart start' front = .ok part := by
  simp only [realPart] at h ⊢
  split at h
  · cases h
  · rename_i exp hexp
    cases h
    rw [List.append_assoc] at hpart
    have hfraction := fraction_of_isPrefix hfront ((List.prefix_append _ _).trans hpart)
    obtain ⟨hfront', hpart'⟩ := drop_of_isPrefix hfront hpart
    rw [hfraction, exponent_of_isPrefix hfront' hexp ((List.prefix_append _ _).trans hpart')]
    obtain ⟨hfront'', hpart''⟩ := drop_of_isPrefix hfront' hpart'
    simp only
    rw [realSuffix_of_isPrefix hfront'' hpart'']

/-- The mark of a hexadecimal number is told by one character. -/
theorem hexMark?_of_isPrefix {digits front : List Char} (hfront : front <+: cs)
    (h : hexMark? digits cs = none ∨ front ≠ []) : hexMark? digits front = hexMark? digits cs := by
  obtain ⟨rest, rfl⟩ := hfront
  cases front with
  | nil => rw [hexMark?_nil, h.resolve_right fun h => h rfl]
  | cons c front => rw [List.cons_append, hexMark?_cons, hexMark?_cons]

/-- **A number, cut off behind its lexeme.** -/
theorem number_of_isPrefix {front lexeme : List Char} {kind : TokenKind} (hfront : front <+: cs)
    (h : number start cs = .ok (kind, lexeme)) (hlexeme : lexeme <+: front) :
    number start' front = .ok (kind, lexeme) := by
  -- The digits at its start are the same, and what follows them is cut off alike.
  have hdigits : ∀ {tail}, lexeme = cs.takeWhile Char.isDigit ++ tail →
      front.takeWhile Char.isDigit = cs.takeWhile Char.isDigit ∧
        front.drop (cs.takeWhile Char.isDigit).length <+:
          cs.drop (cs.takeWhile Char.isDigit).length ∧
        tail <+: front.drop (cs.takeWhile Char.isDigit).length := by
    intro tail htail
    rw [htail] at hlexeme
    exact ⟨takeWhile_of_isPrefix hfront ((List.prefix_append _ _).trans hlexeme),
      drop_of_isPrefix hfront hlexeme⟩
  simp only [number] at h ⊢
  -- Hexadecimal digits, or decimal ones with a suffix or with what makes a number real.
  split at h
  · rename_i mark hmark
    obtain ⟨hzero, -, rest, hrest⟩ := hexMark?_eq_some hmark
    rw [hrest] at h hmark hdigits
    simp only [Nat.add_comm 1, List.drop_succ_cons, List.drop_zero] at h
    split at h
    · cases h
    · rename_i hhex
      obtain ⟨rfl, rfl⟩ := Prod.mk.inj (Except.ok.inj h)
      obtain ⟨hrun, hprefix, htail⟩ := hdigits (by rw [hzero]; rfl)
      rw [hrun]
      generalize front.drop (cs.takeWhile Char.isDigit).length = after at hprefix htail ⊢
      cases after with
      | nil => exact absurd htail.length_le (by simp)
      | cons d after =>
        obtain ⟨rfl, hprefix'⟩ := List.cons_prefix_cons.1 hprefix
        have htail' := (List.cons_prefix_cons.1 htail).2
        have hhexRun := takeWhile_of_isPrefix hprefix' ((List.prefix_append _ _).trans htail')
        obtain ⟨hafter, hsuffix⟩ := drop_of_isPrefix hprefix' htail'
        rw [hexMark?_of_isPrefix hprefix (.inr (List.cons_ne_nil _ _)), hmark]
        simp only [Nat.add_comm 1, List.drop_succ_cons, List.drop_zero]
        rw [hhexRun, if_neg hhex, integerSuffix_of_isPrefix hafter hsuffix]
  · rename_i hmark
    split at h
    · rename_i hsuffix
      split at h
      · cases h
      · rename_i part hpart
        cases h
        obtain ⟨hrun, hprefix, htail⟩ := hdigits rfl
        have hempty := integerSuffix_of_isPrefix hprefix
          (List.isEmpty_iff.1 hsuffix ▸ List.nil_prefix)
        rw [hrun, hexMark?_of_isPrefix hprefix (.inl hmark), hmark]
        simp only [hempty, hsuffix, if_true, realPart_of_isPrefix hprefix hpart htail]
    · rename_i hsuffix
      cases h
      obtain ⟨hrun, hprefix, htail⟩ := hdigits rfl
      rw [hrun, hexMark?_of_isPrefix hprefix (.inl hmark), hmark]
      simp only [integerSuffix_of_isPrefix hprefix htail, if_neg hsuffix]

/-! ## §2. Tokens, cut off behind what was read. -/

/-- A symbol that fits is told by no character that is missing. -/
theorem symbol?_of_isPrefix {kind : TokenKind} {front : List Char} (hfront : front <+: cs)
    (h : symbol? c cs.head? = some kind) (hlexeme : kind.spelling.toList <+: c :: front) :
    symbol? c front.head? = some kind := by
  cases front with
  | cons d front =>
    obtain ⟨rest, rfl⟩ := hfront
    exact h
  | nil =>
    -- A symbol of two characters would not fit.
    have hlength := hlexeme.length_le
    unfold symbol? at h ⊢
    split at h <;> (repeat' split at h) <;> cases h <;>
      first | rfl | exact absurd hlength (by decide)

/-- Whether a character starts a symbol does not depend on the next one. -/
theorem symbol?_eq_none {next next' : Option Char} (h : symbol? c next = none) :
    symbol? c next' = none := by
  unfold symbol? at h ⊢
  split at h <;> (repeat' split at h) <;> first | rfl | cases h

/-- What a literal adds to the characters read before, if they are not cut off within it. -/
theorem literal?_of_isPrefix {quote : Char} {read body front : List Char} (hfront : front <+: cs)
    (h : literal? quote read cs = some (read.reverse ++ body)) (hbody : body <+: front) :
    literal? quote read front = some (read.reverse ++ body) := by
  -- By the ways in which a literal goes on, each of which takes what is before the cut.
  fun_induction literal? quote read cs generalizing body front with
  | case1 => cases h
  | case2 => cases h
  | case3 read c cs ih =>
    obtain ⟨body', hlexeme, -⟩ := literal?_eq_some h
    obtain rfl : body = '\\' :: c :: body' := by simpa using hlexeme
    obtain ⟨more, rfl⟩ := hbody
    obtain ⟨-, hfront⟩ := List.cons_prefix_cons.1 hfront
    obtain ⟨-, hfront⟩ := List.cons_prefix_cons.1 hfront
    have hliteral : literal? quote (c :: '\\' :: read) (body' ++ more) =
        some ((c :: '\\' :: read).reverse ++ body') :=
      ih hfront (by simpa using h) (List.prefix_append _ more)
    simpa [literal?] using hliteral
  | case4 read cs _ hesc ih =>
    obtain ⟨body', hlexeme, -⟩ := literal?_eq_some h
    obtain rfl : body = quote :: quote :: body' := by simpa using hlexeme
    obtain ⟨more, rfl⟩ := hbody
    obtain ⟨-, hfront⟩ := List.cons_prefix_cons.1 hfront
    obtain ⟨-, hfront⟩ := List.cons_prefix_cons.1 hfront
    have hliteral : literal? quote (quote :: quote :: read) (body' ++ more) =
        some ((quote :: quote :: read).reverse ++ body') :=
      ih hfront (by simpa using h) (List.prefix_append _ more)
    rw [List.cons_append, literal?_cons fun hq => hesc _ _ hq rfl]
    simpa using hliteral
  -- The quote that closes it may have had another character behind it, which is cut off.
  | case5 read d cs hd _ hesc =>
    obtain rfl : [quote] = body := by simpa using h
    obtain ⟨more, rfl⟩ := hbody
    rw [List.singleton_append, literal?_cons fun hq => hesc _ _ hq rfl]
    cases more with
    | nil => simp
    | cons e more =>
      obtain ⟨rfl, -⟩ := List.cons_prefix_cons.1 (List.cons_prefix_cons.1 hfront).2
      simp [hd]
  | case6 read hend _ =>
    obtain rfl : [quote] = body := by simpa using h
    obtain rfl : front = [quote] := hfront.eq_of_length_le hbody.length_le
    rw [literal?_cons fun hq => hend hq rfl]
    simp
  | case7 read c cs hend hesc hc ih =>
    obtain ⟨body', hlexeme, -⟩ := literal?_eq_some h
    obtain rfl : body = c :: body' := by simpa using hlexeme
    obtain ⟨more, rfl⟩ := hbody
    obtain ⟨-, hfront⟩ := List.cons_prefix_cons.1 hfront
    have hliteral : literal? quote (c :: read) (body' ++ more) = some ((c :: read).reverse ++ body') :=
      ih hfront (by simpa using h) (List.prefix_append _ more)
    rw [List.cons_append, literal?_cons (ne_backslash hend hesc), if_neg hc]
    simpa using hliteral

/-- A quoted literal is read from what is left of the text.  A quote that was doubled would have been read. -/
theorem quoted_of_isPrefix {quote : Char} {front lexeme : List Char} {kind : TokenKind}
    (hfront : front <+: cs) (h : quoted start quote cs = .ok (kind, lexeme))
    (hlexeme : lexeme <+: quote :: front) : quoted start' quote front = .ok (kind, lexeme) := by
  obtain ⟨hkind, hread, hsize⟩ := quoted_eq_ok_iff.1 h
  obtain ⟨body, rfl, -⟩ := literal?_eq_some hread
  exact quoted_eq_ok_iff.2 ⟨hkind, literal?_of_isPrefix hfront hread (by simpa using hlexeme), hsize⟩

/-- A word is read from what is left of the text, if that holds it. -/
theorem word_of_isPrefix {first : Char} {front lexeme : List Char} {kind : TokenKind}
    (hfront : front <+: cs) (h : word previous start first cs = .ok (kind, lexeme))
    (hlexeme : lexeme <+: first :: front) :
    word previous start' first front = .ok (kind, lexeme) := by
  obtain ⟨hkind, rfl, hlength⟩ := word_eq_ok_iff.1 h
  have htake := takeWhile_of_isPrefix hfront (List.cons_prefix_cons.1 hlexeme).2
  exact word_eq_ok_iff.2 ⟨hkind, by rw [htake], hlength⟩

/-- **A lexeme is told by no character after it that may be missing.** -/
theorem lexeme_of_isPrefix {front lexeme : List Char} {kind : TokenKind} (hfront : front <+: cs)
    (h : Scan.lexeme previous start c cs = .ok (kind, lexeme)) (hlexeme : lexeme <+: c :: front) :
    Scan.lexeme previous start' c front = .ok (kind, lexeme) := by
  rw [lexeme_eq_iff]
  cases lexeme_eq_iff.1 h with
  | symbol kind hsymbol hread =>
    cases hread
    exact .symbol kind (symbol?_of_isPrefix hfront hsymbol hlexeme) rfl
  | literal hsymbol hquote hread =>
    exact .literal (symbol?_eq_none hsymbol) hquote (quoted_of_isPrefix hfront hread hlexeme)
  | word hsymbol hquote hstarts hread =>
    exact .word (symbol?_eq_none hsymbol) hquote hstarts (word_of_isPrefix hfront hread hlexeme)
  | number hsymbol hquote hstarts hdigit hread =>
    exact .number (symbol?_eq_none hsymbol) hquote hstarts hdigit
      (number_of_isPrefix (List.cons_prefix_cons.2 ⟨rfl, hfront⟩) hread hlexeme)
  | other _ _ _ _ hread => cases hread

/-- **A token by itself**: its characters alone are the same token. -/
theorem token_alone (start' : Nat) {t : Token} (h : token previous start cs = .ok (t, rest)) (ht : t.kind ≠ .finish) :
    token previous start' t.text.toList = .ok (⟨t.kind, t.text, start'⟩, []) := by
  rcases token_cases h with ⟨-, rfl, -⟩ | ⟨c, tail, kind, lexeme, hdrop, hlexeme, rfl, -⟩
  · exact absurd rfl ht
  · have hblank := isBlank_of_dropWhile hdrop
    obtain ⟨⟨hpart, hne⟩, -⟩ := lexeme_isPrefix hlexeme
    obtain ⟨d, tail', rfl⟩ := List.exists_cons_of_ne_nil hne
    obtain ⟨rfl, hpart'⟩ := List.cons_prefix_cons.1 hpart
    have halone : Scan.lexeme previous start' d tail' = .ok (kind, d :: tail') :=
      lexeme_of_isPrefix hpart' hlexeme (List.prefix_refl _)
    rw [String.toList_ofList, token_of_lexeme hblank halone, List.drop_length]

/-! ## §3. Blanks. -/

/-- The code points of blanks. -/
def blankCodes : List Nat :=
  [0x9, 0xa, 0xb, 0xc, 0xd, 0x20, 0x85, 0xa0, 0x1680, 0x2000, 0x2001, 0x2002, 0x2003, 0x2004, 0x2005,
    0x2006, 0x2007, 0x2008, 0x2009, 0x200a, 0x2028, 0x2029, 0x202f, 0x205f, 0x3000]

theorem mem_blankCodes (h : isBlank c = true) : c.toNat ∈ blankCodes := by
  simp only [isBlank, Bool.or_eq_true, Bool.and_eq_true, decide_eq_true_eq, beq_iff_eq] at h
  simp only [blankCodes, List.mem_cons, List.not_mem_nil]
  omega

/-- **A blank goes on with no token**: it is no letter, no number and no mark of any script. -/
theorem separates_of_blank (h : isBlank c = true) : separates c = true := by
  have hcodes : ∀ n ∈ blankCodes, separates (Char.ofNat n) = true :=
    List.all_eq_true.1 (by decide +kernel)
  rw [← Char.ofNat_toNat c]
  exact hcodes _ (mem_blankCodes h)

end Scan

end TypeAhead
