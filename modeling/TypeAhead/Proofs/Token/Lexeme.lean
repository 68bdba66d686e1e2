/-
  TypeAhead.Proofs.Token.Lexeme — A LEXEME IS WHAT STANDS IN THE TEXT.

  Every class of lexemes is read off the front of the characters: what the
  scanner calls the lexeme of a token is a prefix of them, never empty and never
  respelled.  So a token, the blanks before it and the characters after it make
  up exactly what was there.

      lexeme_eq_iff       the class of a lexeme
      lexeme_isPrefix     a lexeme is a nonempty prefix
      token_splits        blanks, lexeme and rest make up the text
      ofWord?_of_token    a name is no word for a symbol
-/
import TypeAhead.Token.Cursor

namespace TypeAhead

namespace Token

variable {t : Token} {kind : TokenKind}

theorem isFinish_iff : t.isFinish = true ↔ t.kind = .finish := beq_iff_eq

theorem isFinish_eq_false_iff : t.isFinish = false ↔ t.kind ≠ .finish := beq_eq_false_iff_ne

/-- A token of another kind is not the end. -/
theorem isFinish_of_kind (h : t.kind = kind) (hkind : kind ≠ .finish) : t.isFinish = false :=
  isFinish_eq_false_iff.2 (h ▸ hkind)

end Token

namespace TokenKind

/-- Whether the kind is that of a symbol: of no name, no literal and not the end. -/
def isSymbol (kind : TokenKind) : Bool :=
  !(kind == .finish || kind == .identifier || kind.isLiteral)

/-- No number is a symbol. -/
theorem isSymbol_of_isNumber {kind : TokenKind} (h : kind.isNumber = true) : kind.isSymbol = false := by
  cases kind <;> first | rfl | cases h

/-- The symbols that there are words for. -/
def wordSymbols : List TokenKind :=
  [.equal, .notEqual, .lessThan, .lessThanEqual, .greaterThan, .greaterThanEqual, .doubleAmpersand,
    .doubleBar, .exclamation, .percent]

/-- A word that is an operator has one of five kinds. -/
theorem mem_wordSymbols_of_ofWord? {word : String} {kind : TokenKind} (h : ofWord? word = some kind) :
    kind ∈ wordSymbols := by
  unfold ofWord? at h
  split at h <;> cases h <;> decide

end TokenKind

namespace Scan

open Text

/-! ## §1. Runs of characters. -/

section

variable {cs rest : List Char} {p : Char → Bool}

/-- What is taken has the property. -/
theorem mem_takeWhile : ∀ c ∈ cs.takeWhile p, p c = true :=
  List.all_eq_true.1 List.all_takeWhile

/-- Nothing is taken if the first character has not the property. -/
theorem takeWhile_eq_nil (hrest : ∀ c ∈ rest.head?, p c = false) : rest.takeWhile p = [] := by
  cases rest with
  | nil => rfl
  | cons c rest => exact List.takeWhile_cons_of_neg (by simp [hrest c rfl])

/-- A run of characters of a class is over where one follows that is not of it. -/
theorem takeWhile_run (hrun : ∀ c ∈ cs, p c = true) (hrest : ∀ c ∈ rest.head?, p c = false) :
    (cs ++ rest).takeWhile p = cs := by
  rw [List.takeWhile_append_of_pos hrun, takeWhile_eq_nil hrest, List.append_nil]

/-- Where a run of characters is over, none of the class follows. -/
theorem head?_drop_takeWhile (p : Char → Bool) (cs : List Char) :
    ∀ c ∈ (cs.drop (cs.takeWhile p).length).head?, p c = false := by
  induction cs with
  | nil => exact nofun
  | cons d cs ih =>
    cases hd : p d with
    | true =>
      rw [List.takeWhile_cons_of_pos hd]
      exact ih
    | false =>
      rw [List.takeWhile_cons_of_neg (by simp [hd])]
      intro c hc
      cases hc
      exact hd

end

/-! ## §2. Symbols and numbers. -/

/-- What is read as a symbol is one. -/
theorem isSymbol_of_symbol? {c : Char} {next : Option Char} {kind : TokenKind}
    (h : symbol? c next = some kind) : kind.isSymbol = true := by
  unfold symbol? at h
  split at h <;> (repeat' split at h) <;> cases h <;> rfl

/-- A symbol is spelled by the first one or two characters. -/
theorem symbol?_isPrefix {c : Char} {cs : List Char} {kind : TokenKind}
    (h : symbol? c cs.head? = some kind) : kind.spelling.toList <+: c :: cs := by
  unfold symbol? at h
  cases cs with
  | nil => split at h <;> simp at h <;> subst h <;> exact ⟨[], rfl⟩
  | cons d cs =>
    simp only [List.head?_cons, Option.some.injEq] at h
    split at h <;> (repeat' split at h) <;> cases h <;> subst_vars <;> exact ⟨_, rfl⟩

/-- No symbol is empty. -/
theorem spelling_ne_nil {kind : TokenKind} : kind.spelling.toList ≠ [] := by
  cases kind <;> decide

/-- A suffix is there in the text, if it is there at all. -/
theorem integerSuffix_isPrefix (cs : List Char) : integerSuffix cs <+: cs := by
  unfold integerSuffix
  split
  · rename_i c d cs
    repeat' split
    · exact ⟨cs, rfl⟩
    · exact ⟨d :: cs, rfl⟩
    · exact ⟨cs, rfl⟩
    · exact ⟨d :: cs, rfl⟩
    · exact List.nil_prefix
  · split
    · exact List.prefix_refl _
    · exact List.nil_prefix
  · exact List.prefix_refl _

/-- A fraction is there in the text, if it is there at all. -/
theorem fraction_isPrefix (cs : List Char) : fraction cs <+: cs := by
  unfold fraction
  split
  · rename_i cs
    simp only
    split
    · exact List.nil_prefix
    · exact List.cons_prefix_cons.2 ⟨rfl, List.takeWhile_prefix _⟩
  · exact List.nil_prefix

/-- The sign of an exponent is there in the text, if it is there at all. -/
theorem sign_isPrefix (cs : List Char) : sign cs <+: cs := by
  unfold sign
  split
  · exact ⟨_, rfl⟩
  · exact ⟨_, rfl⟩
  · exact List.nil_prefix

/-- Two runs read one after the other make up one run. -/
theorem append_isPrefix {as bs cs : List Char} (ha : as <+: cs) (hb : bs <+: cs.drop as.length) :
    as ++ bs <+: cs := by
  obtain ⟨rest, rfl⟩ := ha
  rw [List.drop_left] at hb
  exact (List.prefix_append_right_inj as).2 hb

/-- **What an exponent is**: nothing where its letter is not there, or the letter, a sign and digits. -/
theorem exponent_eq_ok_iff {cs part : List Char} : exponent cs = .ok part ↔
    ((∀ c ∈ cs.head?, c.toLower ≠ 'e') ∧ part = []) ∨
    ∃ c tail, cs = c :: tail ∧ c.toLower = 'e' ∧
      (tail.drop (sign tail).length).takeWhile Char.isDigit ≠ [] ∧
      part = c :: sign tail ++ (tail.drop (sign tail).length).takeWhile Char.isDigit := by
  constructor
  · intro h
    unfold exponent at h
    -- Without the letter there is no exponent; with it there have to be digits.
    split at h
    · rename_i c tail
      split at h
      · rename_i hmark
        dsimp only at h
        split at h
        · cases h
        · rename_i hdigits
          cases h
          exact .inr ⟨c, tail, rfl, hmark, mt List.isEmpty_iff.2 hdigits, rfl⟩
      · rename_i hmark
        cases h
        refine .inl ⟨fun d hd => ?_, rfl⟩
        cases hd
        exact hmark
    · cases h
      exact .inl ⟨nofun, rfl⟩
  -- Conversely each of the two is what the definition comes to.
  · rintro (⟨hhead, rfl⟩ | ⟨c, tail, rfl, hmark, hdigits, rfl⟩)
    · cases cs with
      | nil => rfl
      | cons c tail => exact if_neg (hhead c rfl)
    · rw [exponent, if_pos hmark]
      exact if_neg (mt List.isEmpty_iff.1 hdigits)

/-- Where its letter is there and no digit, the digit is missing behind the sign. -/
theorem exponent_eq_error_iff {cs : List Char} {n : Nat} : exponent cs = .error n ↔
    ∃ c tail, cs = c :: tail ∧ c.toLower = 'e' ∧
      (tail.drop (sign tail).length).takeWhile Char.isDigit = [] ∧ n = 1 + (sign tail).length := by
  constructor
  · intro h
    unfold exponent at h
    split at h
    · rename_i c tail
      -- Only digits may be missing.
      split at h
      · rename_i hmark
        dsimp only at h
        split at h
        · rename_i hdigits
          cases h
          exact ⟨c, tail, rfl, hmark, List.isEmpty_iff.1 hdigits, rfl⟩
        · cases h
      · cases h
    · cases h
  · rintro ⟨c, tail, rfl, hmark, hdigits, rfl⟩
    rw [exponent, if_pos hmark]
    exact if_pos (List.isEmpty_iff.2 hdigits)

/-- An exponent is there in the text, unless its digits are missing. -/
theorem exponent_isPrefix {cs part : List Char} (h : exponent cs = .ok part) : part <+: cs := by
  rcases exponent_eq_ok_iff.1 h with ⟨-, rfl⟩ | ⟨c, tail, rfl, -, -, rfl⟩
  · exact List.nil_prefix
  · exact List.cons_prefix_cons.2 ⟨rfl, append_isPrefix (sign_isPrefix tail) (List.takeWhile_prefix _)⟩

theorem realSuffix_isPrefix (cs : List Char) : realSuffix cs <+: cs := by
  unfold realSuffix
  split
  · split
    · exact ⟨_, rfl⟩
    · exact List.nil_prefix
  · exact List.nil_prefix

/-- All that makes a number real is there in the text. -/
theorem realPart_isPrefix {start : Nat} {cs part : List Char}
    (h : realPart start cs = .ok part) : part <+: cs := by
  unfold realPart at h
  simp only at h
  split at h
  · cases h
  · rename_i exp hexp
    cases h
    have hfront := append_isPrefix (fraction_isPrefix cs) (exponent_isPrefix hexp)
    refine append_isPrefix hfront ?_
    rw [List.length_append, ← List.drop_drop]
    exact realSuffix_isPrefix _

theorem hexMark?_nil (digits : List Char) : hexMark? digits [] = none := by
  unfold hexMark?
  split
  · rename_i heq
    cases heq
  · rfl

/-- Hexadecimal digits are marked by an `x` after a single zero. -/
theorem hexMark?_cons (digits : List Char) (c : Char) (cs : List Char) :
    hexMark? digits (c :: cs) = if digits = ['0'] ∧ c.toLower = 'x' then some c else none := by
  unfold hexMark?
  split
  · rename_i heq
    cases heq
    simp
  · rename_i hother
    rw [if_neg]
    rintro ⟨rfl, -⟩
    exact hother c cs rfl rfl

/-- What has been seen where there is a mark. -/
theorem hexMark?_eq_some {digits rest : List Char} {mark : Char} (h : hexMark? digits rest = some mark) :
    digits = ['0'] ∧ mark.toLower = 'x' ∧ ∃ cs, rest = mark :: cs := by
  cases rest with
  | nil =>
    rw [hexMark?_nil] at h
    cases h
  | cons c cs =>
    rw [hexMark?_cons] at h
    split at h <;> cases h
    rename_i hboth
    exact ⟨hboth.1, hboth.2, cs, rfl⟩

/-- A number is one of its two kinds. -/
theorem isNumber_of_number {start : Nat} {cs lexeme : List Char} {kind : TokenKind}
    (h : number start cs = .ok (kind, lexeme)) : kind.isNumber = true := by
  unfold number at h
  simp only at h
  repeat' split at h
  all_goals cases h
  all_goals rfl

/-- A number is a prefix of the characters. -/
theorem number_isPrefix {start : Nat} {cs lexeme : List Char} {kind : TokenKind}
    (h : number start cs = .ok (kind, lexeme)) : lexeme <+: cs := by
  have hdigits : cs.takeWhile Char.isDigit <+: cs := List.takeWhile_prefix _
  unfold number at h
  simp only at h
  split at h
  · rename_i mark hmark
    split at h
    · cases h
    · cases h
      obtain ⟨hzero, -, rest, hrest⟩ := hexMark?_eq_some hmark
      -- The zero and the mark are there in the text.
      have hcs : '0' :: mark :: rest = cs := by
        have := List.prefix_iff_eq_append.1 hdigits
        rwa [hrest, hzero] at this
      rw [hrest, ← hcs]
      refine List.cons_prefix_cons.2 ⟨rfl, List.cons_prefix_cons.2 ⟨rfl, ?_⟩⟩
      refine append_isPrefix (List.takeWhile_prefix _) ?_
      rw [Nat.add_comm 1, List.drop_succ_cons]
      exact integerSuffix_isPrefix _
  · split at h
    · split at h
      · cases h
      · rename_i part hpart
        cases h
        exact append_isPrefix hdigits (realPart_isPrefix hpart)
    · cases h
      exact append_isPrefix hdigits (integerSuffix_isPrefix _)

/-- A number that starts with a digit has that digit at least. -/
theorem number_ne_nil {start : Nat} {c : Char} {cs : List Char} {kind : TokenKind}
    (hdigit : c.isDigit = true) : number start (c :: cs) ≠ .ok (kind, []) := by
  intro h
  unfold number at h
  simp only [List.takeWhile_cons_of_pos hdigit] at h
  split at h
  · split at h
    · cases h
    · simp at h
  · split at h
    · split at h
      · cases h
      · simp at h
    · simp at h

/-! ## §3. Words and quoted literals. -/

/-- A word is a name, or means one of the symbols that there are words for. -/
theorem wordKind_mem (previous : Option TokenKind) (word : String) :
    wordKind previous word ∈ .identifier :: TokenKind.wordSymbols := by
  unfold wordKind
  split
  · exact List.mem_cons_self
  · cases hword : TokenKind.ofWord? word with
    | none => exact List.mem_cons_self
    | some kind => exact List.mem_cons_of_mem _ (TokenKind.mem_wordSymbols_of_ofWord? hword)

/-- A word is an identifier or one of the symbols that are words. -/
theorem wordKind_ne {kind : TokenKind} (hkind : kind ∉ .identifier :: TokenKind.wordSymbols)
    (previous : Option TokenKind) (word : String) : wordKind previous word ≠ kind :=
  ne_of_mem_of_not_mem (wordKind_mem previous word) hkind

/-- **What it takes to be a word.** -/
theorem word_eq_ok_iff {previous : Option TokenKind} {start : Nat} {first : Char}
    {cs lexeme : List Char} {kind : TokenKind} :
    word previous start first cs = .ok (kind, lexeme) ↔
      kind = wordKind previous (String.ofList lexeme) ∧ lexeme = first :: cs.takeWhile isWordChar ∧
        lexeme.length ≤ Limits.identifierLength := by
  constructor
  · intro h
    unfold word at h
    dsimp only at h
    split at h
    · cases h
    · rename_i hlength
      cases h
      exact ⟨rfl, rfl, Nat.not_lt.1 hlength⟩
  · rintro ⟨rfl, rfl, hlength⟩
    exact if_neg (Nat.not_lt.2 hlength)

/-- **What it takes to be a literal.** -/
theorem quoted_eq_ok_iff {start : Nat} {quote : Char} {cs lexeme : List Char} {kind : TokenKind} :
    quoted start quote cs = .ok (kind, lexeme) ↔
      kind = .stringLiteral ∧ literal? quote [quote] cs = some lexeme ∧
        byteSize lexeme ≤ Limits.literalBytes := by
  constructor
  · intro h
    unfold quoted at h
    split at h
    · cases h
    · rename_i hread
      dsimp only at h
      split at h
      · cases h
      · rename_i hsize
        cases h
        exact ⟨rfl, hread, Nat.not_lt.1 hsize⟩
  · rintro ⟨rfl, hread, hsize⟩
    rw [quoted, hread]
    exact if_neg (Nat.not_lt.2 hsize)

/-- What a literal adds to the characters read before is a prefix of those ahead. -/
theorem literal?_eq_some {quote : Char} {read cs lexeme : List Char}
    (h : literal? quote read cs = some lexeme) :
    ∃ body, lexeme = read.reverse ++ body ∧ body <+: cs := by
  -- By the ways in which a literal goes on; what it takes is taken from the text.
  fun_induction literal? quote read cs with
  | case1 => cases h
  | case2 => cases h
  | case3 read c cs ih =>
    obtain ⟨body, rfl, hbody⟩ := ih h
    exact ⟨'\\' :: c :: body, by simp, by simpa using hbody⟩
  | case4 read cs _ _ ih =>
    obtain ⟨body, rfl, hbody⟩ := ih h
    exact ⟨quote :: quote :: body, by simp, by simpa using hbody⟩
  | case5 read c cs =>
    cases h
    exact ⟨[quote], by simp, ⟨c :: cs, rfl⟩⟩
  | case6 read =>
    cases h
    exact ⟨[quote], by simp, List.prefix_refl _⟩
  | case7 read c cs _ _ _ ih =>
    obtain ⟨body, rfl, hbody⟩ := ih h
    exact ⟨c :: body, by simp, by simpa using hbody⟩

/-- A quoted literal is what the text starts with, quotes included. -/
theorem quoted_isPrefix {start : Nat} {quote : Char} {cs lexeme : List Char} {kind : TokenKind}
    (h : quoted start quote cs = .ok (kind, lexeme)) : lexeme <+: quote :: cs ∧ lexeme ≠ [] := by
  obtain ⟨-, hread, -⟩ := quoted_eq_ok_iff.1 h
  obtain ⟨body, rfl, hbody⟩ := literal?_eq_some hread
  exact ⟨by simpa using hbody, by simp⟩

/-- A word is what the text starts with, the mark before it included. -/
theorem word_isPrefix {previous : Option TokenKind} {start : Nat} {first : Char}
    {cs lexeme : List Char} {kind : TokenKind}
    (h : word previous start first cs = .ok (kind, lexeme)) : lexeme <+: first :: cs ∧ lexeme ≠ [] := by
  obtain ⟨-, rfl, -⟩ := word_eq_ok_iff.1 h
  exact ⟨List.cons_prefix_cons.2 ⟨rfl, List.takeWhile_prefix _⟩, List.cons_ne_nil _ _⟩

/-! ## §4. Tokens. -/

/-- The class that the characters at the front belong to, and what the reader of that class makes of
them: a lexeme or a fault. -/
inductive ReadsAs (previous : Option TokenKind) (start : Nat) (c : Char) (cs : List Char)
    (read : Except Fault (TokenKind × List Char)) : Prop where
  | symbol (kind : TokenKind) (hsymbol : symbol? c cs.head? = some kind)
      (hread : .ok (kind, kind.spelling.toList) = read)
  | literal (hsymbol : symbol? c cs.head? = none) (hquote : c = '"' ∨ c = '\'')
      (hread : quoted start c cs = read)
  | word (hsymbol : symbol? c cs.head? = none) (hquote : ¬ (c = '"' ∨ c = '\''))
      (hstarts : startsWord c = true) (hread : Scan.word previous start c cs = read)
  | number (hsymbol : symbol? c cs.head? = none) (hquote : ¬ (c = '"' ∨ c = '\''))
      (hstarts : startsWord c = false) (hdigit : c.isDigit = true)
      (hread : Scan.number start (c :: cs) = read)
  | other (hsymbol : symbol? c cs.head? = none) (hquote : ¬ (c = '"' ∨ c = '\''))
      (hstarts : startsWord c = false) (hdigit : c.isDigit = false)
      (hread : .error ⟨.invalidCharacter c, start⟩ = read)

/-- **What stands at the front is read as its class tells.** -/
theorem lexeme_eq_iff {previous : Option TokenKind} {start : Nat} {c : Char} {cs : List Char}
    {read : Except Fault (TokenKind × List Char)} :
    Scan.lexeme previous start c cs = read ↔ ReadsAs previous start c cs read := by
  have hmarks : (decide (c = '"') || decide (c = '\'')) = true ↔ c = '"' ∨ c = '\'' := by simp
  constructor
  · intro h
    unfold Scan.lexeme at h
    -- The tests are made in this order, so that each way knows that those before it have failed.
    split at h
    · rename_i kind hsymbol
      exact .symbol kind hsymbol h
    · rename_i hsymbol
      split at h
      · rename_i hquote
        exact .literal hsymbol (hmarks.1 hquote) h
      · rename_i hquote
        have hquote := mt hmarks.2 hquote
        split at h
        · rename_i hstarts
          exact .word hsymbol hquote hstarts h
        · rename_i hstarts
          have hstarts := Bool.eq_false_iff.2 hstarts
          split at h
          · rename_i hdigit
            exact .number hsymbol hquote hstarts hdigit h
          · rename_i hdigit
            exact .other hsymbol hquote hstarts (Bool.eq_false_iff.2 hdigit) h
  · intro h
    unfold Scan.lexeme
    -- Given the ways, each test comes out as it has to.
    cases h with
    | symbol kind hsymbol hread => rwa [hsymbol]
    | literal hsymbol hquote hread =>
      rw [hsymbol]
      dsimp only
      rwa [if_pos (hmarks.2 hquote)]
    | word hsymbol hquote hstarts hread =>
      rw [hsymbol]
      dsimp only
      rwa [if_neg (mt hmarks.1 hquote), if_pos hstarts]
    | number hsymbol hquote hstarts hdigit hread =>
      rw [hsymbol]
      dsimp only
      rwa [if_neg (mt hmarks.1 hquote), if_neg (Bool.eq_false_iff.1 hstarts), if_pos hdigit]
    | other hsymbol hquote hstarts hdigit hread =>
      rw [hsymbol]
      dsimp only
      rwa [if_neg (mt hmarks.1 hquote), if_neg (Bool.eq_false_iff.1 hstarts),
        if_neg (Bool.eq_false_iff.1 hdigit)]

/-- **A lexeme is a nonempty prefix of the characters**, and it is not the end of the text. -/
theorem lexeme_isPrefix {previous : Option TokenKind} {start : Nat} {c : Char}
    {cs lexeme : List Char} {kind : TokenKind}
    (h : Scan.lexeme previous start c cs = .ok (kind, lexeme)) :
    (lexeme <+: c :: cs ∧ lexeme ≠ []) ∧ kind ≠ .finish := by
  -- Each kind of token is part of the text, and none of them is the end.
  cases lexeme_eq_iff.1 h with
  | symbol _ hsymbol hread =>
    cases hread
    refine ⟨⟨symbol?_isPrefix hsymbol, spelling_ne_nil⟩, ?_⟩
    rintro rfl
    cases isSymbol_of_symbol? hsymbol
  | literal _ _ hread =>
    obtain ⟨rfl, -, -⟩ := quoted_eq_ok_iff.1 hread
    exact ⟨quoted_isPrefix hread, by decide⟩
  | word _ _ _ hread =>
    obtain ⟨rfl, -, -⟩ := word_eq_ok_iff.1 hread
    exact ⟨word_isPrefix hread, wordKind_ne (by decide) _ _⟩
  | number _ _ _ hdigit hread =>
    refine ⟨⟨number_isPrefix hread, ?_⟩, ?_⟩
    · rintro rfl
      exact number_ne_nil hdigit hread
    · rintro rfl
      cases isNumber_of_number hread
  | other _ _ _ _ hread => cases hread

/-- **What reading a token can come to**: past the blanks the text is over, or a lexeme stands there. -/
theorem token_cases {previous : Option TokenKind} {start : Nat} {cs rest : List Char} {t : Token}
    (h : Scan.token previous start cs = .ok (t, rest)) :
    (cs.dropWhile isBlank = [] ∧ t = .finish (start + byteSize (cs.takeWhile isBlank)) ∧ rest = []) ∨
    ∃ c tail kind lexeme, cs.dropWhile isBlank = c :: tail ∧
      Scan.lexeme previous (start + byteSize (cs.takeWhile isBlank)) c tail = .ok (kind, lexeme) ∧
      t = ⟨kind, String.ofList lexeme, start + byteSize (cs.takeWhile isBlank)⟩ ∧
      rest = (c :: tail).drop lexeme.length := by
  unfold Scan.token at h
  simp only at h
  split at h
  · rename_i hdrop
    cases h
    exact .inl ⟨hdrop, rfl, rfl⟩
  · rename_i c tail hdrop
    split at h
    · cases h
    · rename_i kind lexeme hlexeme
      cases h
      exact .inr ⟨c, tail, kind, lexeme, hdrop, hlexeme, rfl, rfl⟩

/-- Where no token can be read, it is past the blanks that no lexeme stands. -/
theorem lexeme_of_token_error {previous : Option TokenKind} {start : Nat} {cs : List Char}
    {fault : Fault} (h : Scan.token previous start cs = .error fault) :
    ∃ c tail, cs.dropWhile isBlank = c :: tail ∧
      Scan.lexeme previous (start + byteSize (cs.takeWhile isBlank)) c tail = .error fault := by
  unfold Scan.token at h
  simp only at h
  split at h
  · cases h
  · rename_i c tail hdrop
    split at h
    · rename_i hlexeme
      cases h
      exact ⟨c, tail, hdrop, hlexeme⟩
    · cases h

/-- Where no blank stands, a token starts at once. -/
theorem token_cons {c : Char} (hblank : isBlank c = false) (previous : Option TokenKind) (start : Nat)
    (cs : List Char) : Scan.token previous start (c :: cs) =
      match Scan.lexeme previous start c cs with
      | .error fault => .error fault
      | .ok (kind, lexeme) =>
        .ok (⟨kind, String.ofList lexeme, start⟩, (c :: cs).drop lexeme.length) := by
  have htake : (c :: cs).takeWhile isBlank = [] := List.takeWhile_cons_of_neg (by simp [hblank])
  have hdrop : (c :: cs).dropWhile isBlank = c :: cs := List.dropWhile_cons_of_neg (by simp [hblank])
  cases hlexeme : Scan.lexeme previous start c cs <;>
    simp only [Scan.token, htake, hdrop, byteSize_nil, Nat.add_zero, hlexeme]

/-- A lexeme that no blank stands before is read as a token. -/
theorem token_of_lexeme {previous : Option TokenKind} {start : Nat} {c : Char} {cs lexeme : List Char}
    {kind : TokenKind} (hblank : isBlank c = false)
    (h : Scan.lexeme previous start c cs = .ok (kind, lexeme)) :
    Scan.token previous start (c :: cs) =
      .ok (⟨kind, String.ofList lexeme, start⟩, (c :: cs).drop lexeme.length) := by
  rw [token_cons hblank, h]

/-- What a token is, in terms of the characters that it was read from: the end of the text, or
some blanks, a lexeme and the rest. -/
inductive Splits (start : Nat) (cs : List Char) (t : Token) (rest : List Char) : Prop where
  /-- Only blanks are left. -/
  | finish (hkind : t.kind = .finish) (hblank : ∀ c ∈ cs, isBlank c = true)
      (htext : t.text = "") (hstart : t.start = start + byteSize cs) (hrest : rest = [])
  /-- The blanks before the token, its characters and those after it. -/
  | lexeme (blanks lexeme : List Char) (hkind : t.kind ≠ .finish)
      (hcs : cs = blanks ++ lexeme ++ rest) (hne : lexeme ≠ [])
      (htext : t.text = String.ofList lexeme) (hstart : t.start = start + byteSize blanks)

/-- **A token, the blanks before it and the characters after it make up what was there.** -/
theorem token_splits {previous : Option TokenKind} {start : Nat} {cs rest : List Char} {t : Token}
    (h : Scan.token previous start cs = .ok (t, rest)) : Splits start cs t rest := by
  have hcs : cs.takeWhile isBlank ++ cs.dropWhile isBlank = cs := List.takeWhile_append_dropWhile
  rcases token_cases h with ⟨hdrop, rfl, rfl⟩ | ⟨c, tail, kind, lexeme, hdrop, hlexeme, rfl, rfl⟩
  · have htake : cs.takeWhile isBlank = cs := by rwa [hdrop, List.append_nil] at hcs
    refine .finish rfl ?_ rfl (by rw [htake]; rfl) rfl
    exact fun c hc => mem_takeWhile c (htake.symm ▸ hc)
  · obtain ⟨⟨⟨rest, hrest⟩, hne⟩, hkind⟩ := lexeme_isPrefix hlexeme
    refine .lexeme (cs.takeWhile isBlank) lexeme hkind ?_ hne rfl rfl
    rw [← hrest, List.drop_left, List.append_assoc, hrest, ← hdrop, hcs]

/-- A token starts after the blanks before it. -/
theorem start_of_token {previous : Option TokenKind} {start : Nat} {cs rest : List Char}
    {t : Token} (h : Scan.token previous start cs = .ok (t, rest)) :
    t.start = start + byteSize (cs.takeWhile isBlank) := by
  rcases token_cases h with ⟨-, rfl, -⟩ | ⟨_, _, _, _, -, -, rfl, -⟩ <;> rfl

/-- What is left past the blanks does not start with one. -/
theorem isBlank_of_dropWhile {cs tail : List Char} {c : Char} (h : cs.dropWhile isBlank = c :: tail) :
    isBlank c = false := by
  have := List.head?_dropWhile_not isBlank cs
  rw [h] at this
  simpa using this

/-- **A token starts with no blank.** -/
theorem head_of_token {previous : Option TokenKind} {start : Nat} {cs rest : List Char} {t : Token}
    (h : Scan.token previous start cs = .ok (t, rest)) (ht : t.kind ≠ .finish) :
    ∃ c tail, t.text.toList = c :: tail ∧ isBlank c = false := by
  rcases token_cases h with ⟨-, rfl, -⟩ | ⟨c, tail, kind, lexeme, hdrop, hlexeme, rfl, -⟩
  · exact absurd rfl ht
  · obtain ⟨⟨hpart, hne⟩, -⟩ := lexeme_isPrefix hlexeme
    obtain ⟨d, lexeme, rfl⟩ := List.exists_cons_of_ne_nil hne
    obtain ⟨rfl, -⟩ := List.cons_prefix_cons.1 hpart
    exact ⟨d, lexeme, String.toList_ofList, isBlank_of_dropWhile hdrop⟩

/-! ## §5. Names. -/

/-- A name is a word. -/
theorem word_of_lexeme {previous : Option TokenKind} {start : Nat} {c : Char} {cs lexeme : List Char}
    (h : Scan.lexeme previous start c cs = .ok (.identifier, lexeme)) :
    symbol? c cs.head? = none ∧ (c ≠ '"' ∧ c ≠ '\'') ∧ startsWord c = true ∧
      Scan.word previous start c cs = .ok (.identifier, lexeme) := by
  cases lexeme_eq_iff.1 h with
  | symbol _ hsymbol hread =>
    cases hread
    cases isSymbol_of_symbol? hsymbol
  | literal _ _ hread => cases (quoted_eq_ok_iff.1 hread).1
  | word hsymbol hquote hstarts hread => exact ⟨hsymbol, not_or.1 hquote, hstarts, hread⟩
  | number _ _ _ _ hread => cases isNumber_of_number hread
  | other _ _ _ _ hread => cases hread

/-- Where no dot stands before it, a name is no word for a symbol. -/
theorem ofWord?_of_lexeme {previous : Option TokenKind} (hprevious : previous ≠ some .dot)
    {start : Nat} {c : Char} {cs lexeme : List Char}
    (h : Scan.lexeme previous start c cs = .ok (.identifier, lexeme)) :
    TokenKind.ofWord? (String.ofList lexeme) = none := by
  obtain ⟨-, -, -, hread⟩ := word_of_lexeme h
  obtain ⟨hkind, -, -⟩ := word_eq_ok_iff.1 hread
  rw [wordKind, if_neg hprevious] at hkind
  cases hword : TokenKind.ofWord? (String.ofList lexeme) with
  | none => rfl
  | some kind =>
    rw [hword] at hkind
    obtain rfl : TokenKind.identifier = kind := hkind
    exact absurd (TokenKind.mem_wordSymbols_of_ofWord? hword) (by decide)

/-- An identifier is no word that is an operator, except after a dot. -/
theorem ofWord?_of_token {previous : Option TokenKind} (hprevious : previous ≠ some .dot)
    {start : Nat} {cs rest : List Char} {t : Token}
    (h : Scan.token previous start cs = .ok (t, rest)) (hkind : t.kind = .identifier) :
    TokenKind.ofWord? t.text = none := by
  rcases token_cases h with ⟨-, rfl, -⟩ | ⟨_, _, kind, _, -, hlexeme, rfl, -⟩
  · cases hkind
  · have hkind : kind = .identifier := hkind
    rw [hkind] at hlexeme
    exact ofWord?_of_lexeme hprevious hlexeme

end Scan

end TypeAhead
