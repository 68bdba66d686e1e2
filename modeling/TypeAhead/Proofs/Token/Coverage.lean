/-
  TypeAhead.Proofs.Token.Coverage — THE TOKENS OF A TEXT COVER IT.

  Nothing of a text is lost on the way to its tokens.  Each token is the piece of
  the text where it stands, there are only blanks between two of them, and the end
  stands after the last byte.  A symbol is spelled as it is listed, or by a word for
  it that does not stand directly after a dot.

  A text that is not made of tokens has a fault between two of its characters.

      spelled_of_lexeme     how symbols are spelled
      fault_of_token        where a fault lies
      written_of_after      blanks and tokens, one after the other
      tokenize_covers       the tokens of a text, or its fault
-/
import Mathlib.Data.List.Chain
import TypeAhead.Proofs.Token.Ahead

namespace TypeAhead

open Text

/-! ## §1. How symbols are spelled. -/

/-- A symbol has its own spelling, or is a word for it that does not stand directly after a dot. -/
def Spelled (previous : Option TokenKind) (kind : TokenKind) (text : String) : Prop :=
  kind.isSymbol = true →
    text = kind.spelling ∨ (previous ≠ some .dot ∧ TokenKind.ofWord? text = some kind)

namespace Scan

variable {previous : Option TokenKind} {start : Nat} {c : Char} {cs rest lexeme : List Char}
  {kind : TokenKind} {fault : Fault} {t : Token}

/-- A word that is read as an operator is spelled like it, whatever its case. -/
theorem spelled_wordKind (previous : Option TokenKind) (word : String) :
    Spelled previous (wordKind previous word) word := by
  intro hsymbol
  unfold wordKind at hsymbol ⊢
  by_cases hdot : previous = some .dot
  · rw [if_pos hdot] at hsymbol
    cases hsymbol
  · rw [if_neg hdot] at hsymbol ⊢
    cases hword : TokenKind.ofWord? word with
    | none =>
      rw [hword] at hsymbol
      cases hsymbol
    | some kind => exact .inr ⟨hdot, rfl⟩

/-- **Symbols are spelled as they are listed, or by words.** -/
theorem spelled_of_lexeme (h : Scan.lexeme previous start c cs = .ok (kind, lexeme)) :
    Spelled previous kind (String.ofList lexeme) := by
  intro hsymbol
  cases lexeme_eq_iff.1 h with
  | symbol _ _ hread =>
    cases hread
    exact .inl String.ofList_toList
  | literal _ _ hread =>
    obtain ⟨rfl, -, -⟩ := quoted_eq_ok_iff.1 hread
    cases hsymbol
  | word _ _ _ hread =>
    obtain ⟨rfl, -, -⟩ := word_eq_ok_iff.1 hread
    exact spelled_wordKind previous _ hsymbol
  | number _ _ _ _ hread =>
    cases (TokenKind.isSymbol_of_isNumber (isNumber_of_number hread)).symm.trans hsymbol
  | other _ _ _ _ hread => cases hread

/-- **A symbol that there is no word for is spelled in one way.** -/
theorem text_of_lexeme (h : Scan.lexeme previous start c cs = .ok (kind, lexeme))
    (hsymbol : kind.isSymbol = true) (hword : kind ∉ TokenKind.wordSymbols) :
    String.ofList lexeme = kind.spelling := by
  rcases spelled_of_lexeme h hsymbol with htext | ⟨-, hmeans⟩
  · exact htext
  · exact absurd (TokenKind.mem_wordSymbols_of_ofWord? hmeans) hword

/-! ## §2. Where faults lie. -/

/-- A character of ASCII takes one byte. -/
theorem utf8Size_of_le (h : c.val ≤ 0x7f) : c.utf8Size = 1 := by
  unfold Char.utf8Size
  exact if_pos h

/-- A digit takes one byte. -/
theorem utf8Size_of_isDigit (h : c.isDigit = true) : c.utf8Size = 1 := by
  simp only [Char.isDigit, Bool.and_eq_true, decide_eq_true_eq] at h
  apply utf8Size_of_le
  exact UInt32.le_trans h.2 (by decide)

/-- A letter of ASCII in whatever case takes one byte. -/
theorem utf8Size_of_toLower {letter : Char} (h : c.toLower = letter) (hletter : letter.val ≤ 0x7f) :
    c.utf8Size = 1 := by
  apply utf8Size_of_le
  unfold Char.toLower at h
  split at h
  · rename_i hupper
    exact UInt32.le_trans hupper.2 (by decide)
  · rw [h]
    exact hletter

/-- Where every character takes one byte, there are as many of both. -/
theorem byteSize_eq_length (h : ∀ c ∈ cs, c.utf8Size = 1) : byteSize cs = cs.length := by
  induction cs with
  | nil => rfl
  | cons c cs ih =>
    rw [byteSize_cons, List.length_cons, h c List.mem_cons_self,
      ih fun d hd => h d (List.mem_cons_of_mem c hd)]
    omega

/-- Digits take as many bytes as there are of them. -/
theorem byteSize_digits (cs : List Char) :
    byteSize (cs.takeWhile Char.isDigit) = (cs.takeWhile Char.isDigit).length := by
  exact byteSize_eq_length fun c hc => utf8Size_of_isDigit (mem_takeWhile c hc)

/-- A fraction takes as many bytes as it has characters. -/
theorem byteSize_fraction (cs : List Char) : byteSize (fraction cs) = (fraction cs).length := by
  unfold fraction
  split
  · rename_i cs
    simp only
    split
    · rfl
    · rw [byteSize_cons, List.length_cons, byteSize_digits]
      show 1 + _ = _
      omega
  · rfl

/-- A sign takes as many bytes as it has characters. -/
theorem byteSize_sign (cs : List Char) : byteSize (sign cs) = (sign cs).length := by
  unfold sign
  split <;> rfl

/-- `n` bytes from the front there is a place between two characters, or an end. -/
def Borders (cs : List Char) (n : Nat) : Prop := ∃ front, front <+: cs ∧ byteSize front = n

/-- The start of a text is between its characters. -/
theorem borders_zero (cs : List Char) : Borders cs 0 := ⟨[], List.nil_prefix, rfl⟩

/-- A place past a run that is read. -/
theorem Borders.append {front : List Char} (hfront : front <+: cs) {n : Nat}
    (h : Borders (cs.drop front.length) n) : Borders cs (byteSize front + n) := by
  obtain ⟨part, hpart, rfl⟩ := h
  exact ⟨front ++ part, append_isPrefix hfront hpart, byteSize_append front part⟩

/-- A fault in an exponent is at the end of what was read of it. -/
theorem borders_of_exponent {n : Nat} (h : exponent cs = .error n) : Borders cs n := by
  obtain ⟨c, tail, rfl, hmark, -, rfl⟩ := exponent_eq_error_iff.1 h
  refine ⟨c :: sign tail, List.cons_prefix_cons.2 ⟨rfl, sign_isPrefix tail⟩, ?_⟩
  rw [byteSize_cons, byteSize_sign, utf8Size_of_toLower hmark (by decide)]

/-- A fault in what makes a number real is at the end of what was read of it. -/
theorem borders_of_realPart (h : realPart start cs = .error fault) :
    ∃ n, Borders cs n ∧ fault.position = start + n := by
  unfold realPart at h
  simp only at h
  split at h
  · rename_i n hexponent
    cases h
    refine ⟨byteSize (fraction cs) + n, (borders_of_exponent hexponent).append (fraction_isPrefix cs), ?_⟩
    rw [byteSize_fraction]
    show start + _ + n = _
    omega
  · cases h

/-- A fault in a number is between two of its characters. -/
theorem borders_of_number (h : number start cs = .error fault) :
    ∃ n, Borders cs n ∧ fault.position = start + n := by
  have hdigits : cs.takeWhile Char.isDigit <+: cs := List.takeWhile_prefix _
  unfold number at h
  simp only at h
  split at h
  · rename_i mark hmark
    split at h
    · cases h
      -- The digit is missing after the zero and the mark.
      obtain ⟨hzero, hletter, more, hrest⟩ := hexMark?_eq_some hmark
      have hborders : Borders (cs.drop (cs.takeWhile Char.isDigit).length) 1 := by
        refine ⟨[mark], ?_, ?_⟩
        · rw [hrest]
          exact ⟨more, rfl⟩
        · rw [byteSize_cons, utf8Size_of_toLower hletter (by decide)]
          rfl
      refine ⟨2, ?_, rfl⟩
      have := hborders.append hdigits
      rwa [hzero] at this
    · cases h
  -- Otherwise a digit is missing in an exponent, behind the digits that were read.
  · split at h
    · split at h
      · rename_i hpart
        cases h
        obtain ⟨n, hborders, hposition⟩ := borders_of_realPart hpart
        refine ⟨byteSize (cs.takeWhile Char.isDigit) + n, hborders.append hdigits, ?_⟩
        rw [hposition, byteSize_digits]
        omega
      · cases h
    · cases h

/-- A fault in a quoted literal is at its quote or at the end of the text. -/
theorem borders_of_quoted {quote : Char} (h : quoted start quote cs = .error fault) :
    ∃ n, Borders (quote :: cs) n ∧ fault.position = start + n := by
  unfold quoted at h
  split at h
  · cases h
    refine ⟨byteSize (quote :: cs), ⟨_, List.prefix_refl _, rfl⟩, ?_⟩
    rw [byteSize_cons]
    show start + _ + _ = _
    omega
  · simp only at h
    split at h
    · cases h
      exact ⟨0, borders_zero _, rfl⟩
    · cases h

/-- A fault of any token is between two characters. -/
theorem borders_of_lexeme (h : Scan.lexeme previous start c cs = .error fault) :
    ∃ n, Borders (c :: cs) n ∧ fault.position = start + n := by
  cases lexeme_eq_iff.1 h with
  | symbol _ _ hread => cases hread
  | literal _ _ hread => exact borders_of_quoted hread
  | word _ _ _ hread =>
    unfold word at hread
    simp only at hread
    split at hread <;> cases hread
    exact ⟨0, borders_zero _, rfl⟩
  | number _ _ _ _ hread => exact borders_of_number hread
  | other _ _ _ _ hread =>
    cases hread
    exact ⟨0, borders_zero _, rfl⟩

/-- **A fault lies between two of the characters**, or at their end. -/
theorem fault_of_token (h : Scan.token previous start cs = .error fault) :
    ∃ n, Borders cs n ∧ fault.position = start + n := by
  obtain ⟨c, tail, hdrop, hlexeme⟩ := lexeme_of_token_error h
  obtain ⟨n, hborders, hposition⟩ := borders_of_lexeme hlexeme
  have hcs : cs.takeWhile isBlank ++ cs.dropWhile isBlank = cs := List.takeWhile_append_dropWhile
  have hrest : cs.drop (cs.takeWhile isBlank).length = c :: tail := by
    rw [← hdrop]
    calc cs.drop (cs.takeWhile isBlank).length
        = (cs.takeWhile isBlank ++ cs.dropWhile isBlank).drop (cs.takeWhile isBlank).length := by rw [hcs]
      _ = cs.dropWhile isBlank := List.drop_left
  refine ⟨byteSize (cs.takeWhile isBlank) + n, ?_, ?_⟩
  · apply Borders.append (List.takeWhile_prefix _)
    rw [hrest]
    exact hborders
  · rw [hposition]
    omega

end Scan

/-! ## §3. Blanks and tokens, one after the other. -/

/-- `Written front previous cs ts`: after `front`, of which the last token is of the kind `previous`,
the characters `cs` are the tokens `ts` with blanks before each of them, up to the end. -/
inductive Written : List Char → Option TokenKind → List Char → List Token → Prop where
  | finish {front blanks : List Char} {previous : Option TokenKind}
      (hblank : ∀ c ∈ blanks, isBlank c = true) :
      Written front previous blanks [.finish (byteSize (front ++ blanks))]
  | token {front blanks lexeme rest : List Char} {previous : Option TokenKind} {kind : TokenKind}
      {ts : List Token} (hblank : ∀ c ∈ blanks, isBlank c = true) (hne : lexeme ≠ [])
      (hkind : kind ≠ .finish) (hspelled : Spelled previous kind (String.ofList lexeme))
      (h : Written (front ++ blanks ++ lexeme) (some kind) rest ts) :
      Written front previous (blanks ++ lexeme ++ rest)
        (⟨kind, String.ofList lexeme, byteSize (front ++ blanks)⟩ :: ts)

/-- **What is read are blanks and tokens**, the first token after others of which the last one is of
the kind `previous`. -/
theorem written_of_after {c : Cursor} {ts : List Token} (hafter : After c ts) {size : Nat}
    {front cs : List Char} {previous : Option TokenKind}
    (hread : Cursor.read size previous (byteSize front) cs = .ok c) :
    Written front previous cs (c.current :: ts) := by
  -- By induction on the tokens ahead; what was read so far is the front of what is read next.
  induction hafter generalizing size front cs previous with
  | @finish c hc =>
    obtain ⟨-, -, htoken⟩ := Cursor.read_eq_ok hread
    have hkind : c.current.kind = .finish := Token.isFinish_iff.1 hc
    -- The end of the text is read where nothing but blanks is left.
    rcases Scan.token_cases htoken with ⟨hdrop, ht, -⟩ | ⟨_, _, kind, _, -, hlexeme, ht, -⟩
    · have hcs : cs.takeWhile isBlank = cs := by
        have := List.takeWhile_append_dropWhile (p := isBlank) (l := cs)
        rwa [hdrop, List.append_nil] at this
      rw [ht, hcs, ← byteSize_append]
      apply Written.finish
      intro d hd
      exact Scan.mem_takeWhile d (hcs.symm ▸ hd)
    · rw [ht] at hkind
      exact absurd hkind (Scan.lexeme_isPrefix hlexeme).2
  | @next c d ts hc hnext h ih =>
    obtain ⟨-, hoffset, htoken⟩ := Cursor.read_eq_ok hread
    rcases Scan.token_cases htoken with ⟨-, ht, -⟩ | ⟨e, tail, kind, lexeme, hdrop, hlexeme, ht, hrest⟩
    · rw [ht] at hc
      cases hc
    · obtain ⟨⟨⟨rest, hpart⟩, hne⟩, hkind⟩ := Scan.lexeme_isPrefix hlexeme
      have hrest : c.rest = rest := by
        rw [hrest, ← hpart]
        exact List.drop_left
      -- The text from here on is blanks, the token and what is left behind it.
      have hcs : cs = cs.takeWhile isBlank ++ lexeme ++ c.rest := by
        have := List.takeWhile_append_dropWhile (p := isBlank) (l := cs)
        rw [hdrop, ← hpart, ← hrest, ← List.append_assoc] at this
        exact this.symm
      have hstart : c.current =
          ⟨kind, String.ofList lexeme, byteSize (front ++ cs.takeWhile isBlank)⟩ := by
        rw [ht, byteSize_append]
      -- The next token is read from where this one ends.
      have hfront : c.offset = byteSize (front ++ cs.takeWhile isBlank ++ lexeme) := by
        rw [hoffset, hstart, byteSize_append (front ++ _)]
        show _ + (String.ofList lexeme).utf8ByteSize = _
        rw [utf8ByteSize_ofList]
      rw [Cursor.next_of_not_finish hc, hfront, hstart] at hnext
      have hwritten := Written.token (@Scan.mem_takeWhile cs isBlank) hne hkind
        (Scan.spelled_of_lexeme hlexeme) (ih hnext)
      rw [← hstart, ← hcs] at hwritten
      exact hwritten

namespace Written

variable {front cs : List Char} {previous : Option TokenKind} {ts : List Token}

/-- The last token is the end, which stands after the last byte, and no other token is. -/
theorem finish_last (h : Written front previous cs ts) :
    ∃ tokens, ts = tokens ++ [.finish (byteSize (front ++ cs))] ∧ ∀ t ∈ tokens, t.kind ≠ .finish := by
  induction h with
  | finish hblank => exact ⟨[], rfl, nofun⟩
  | @token front blanks lexeme rest previous kind ts _ _ hkind _ _ ih =>
    obtain ⟨tokens, hts, hkinds⟩ := ih
    refine ⟨⟨kind, String.ofList lexeme, byteSize (front ++ blanks)⟩ :: tokens, ?_, ?_⟩
    · rw [hts]
      simp
    · intro t ht
      rcases List.mem_cons.1 ht with rfl | ht
      · exact hkind
      · exact hkinds t ht

/-- A token is the piece of the text where it stands. -/
theorem piece (h : Written front previous cs ts) {t : Token} (ht : t ∈ ts) (hkind : t.kind ≠ .finish) :
    t.text ≠ "" ∧ slice? t.start t.stop (front ++ cs) = some t.text.toList := by
  -- The token is the first one of the rest, or it is one of those behind.
  induction h with
  | finish hblank =>
    rw [List.mem_singleton.1 ht] at hkind
    exact absurd rfl hkind
  | @token front blanks lexeme rest previous kind ts _ hne _ _ _ ih =>
    rcases List.mem_cons.1 ht with rfl | ht
    · constructor
      · intro hempty
        have := congrArg String.toList hempty
        rw [String.toList_ofList] at this
        exact hne this
      -- It stops where its text is over.
      · have hstop : byteSize (front ++ blanks) + (String.ofList lexeme).utf8ByteSize =
            byteSize (front ++ blanks ++ lexeme) := by
          rw [utf8ByteSize_ofList, byteSize_append (front ++ blanks)]
        have := slice?_append (front ++ blanks) lexeme rest
        rw [← hstop] at this
        simp only [List.append_assoc] at this ⊢
        rw [String.toList_ofList]
        exact this
    · have := ih ht
      simp only [List.append_assoc] at this ⊢
      exact this

/-- The first of the tokens: how it is spelled, and the blanks before it. -/
theorem first (h : Written front previous cs ts) {t : Token} (ht : t ∈ ts.head?) :
    Spelled previous t.kind t.text ∧ byteSize front ≤ t.start ∧
      ∃ gap, slice? (byteSize front) t.start (front ++ cs) = some gap ∧
        ∀ c ∈ gap, isBlank c = true := by
  -- The first token of the rest is the end, with blanks before it, or it is the one that is written.
  cases h with
  | finish hblank =>
    obtain rfl : t = .finish (byteSize (front ++ cs)) := by simpa using ht.symm
    refine ⟨nofun, ?_, cs, ?_, hblank⟩
    · show _ ≤ byteSize (front ++ cs)
      rw [byteSize_append]
      omega
    · have := slice?_append front cs []
      rwa [List.append_nil] at this
  | @token _ blanks lexeme rest _ kind ts hblank _ _ hspelled _ =>
    obtain rfl : t = ⟨kind, String.ofList lexeme, byteSize (front ++ blanks)⟩ := by simpa using ht.symm
    refine ⟨hspelled, ?_, blanks, ?_, hblank⟩
    · show _ ≤ byteSize (front ++ blanks)
      rw [byteSize_append]
      omega
    · have := slice?_append front blanks (lexeme ++ rest)
      simp only [List.append_assoc] at this ⊢
      exact this

/-- How symbols are spelled. -/
theorem spelled (h : Written front previous cs ts) {t : Token} (ht : t ∈ ts) :
    ∃ previous, Spelled previous t.kind t.text := by
  induction h with
  | @finish front blanks previous hblank =>
    rw [List.mem_singleton.1 ht]
    exact ⟨none, nofun⟩
  | @token front blanks lexeme rest previous kind ts _ _ _ hspelled _ ih =>
    rcases List.mem_cons.1 ht with rfl | ht
    · exact ⟨previous, hspelled⟩
    · exact ih ht

end Written

/-- What is right of a token and the next one in a text: they do not overlap, only blanks are between
them, and after a dot a symbol has its own spelling. -/
structure Adjacent (text : List Char) (a b : Token) : Prop where
  start_lt : a.start < b.start
  stop_le : a.stop ≤ b.start
  blank : ∃ gap, slice? a.stop b.start text = some gap ∧ ∀ c ∈ gap, isBlank c = true
  after_dot : a.kind = .dot → b.kind.isSymbol = true → b.text = b.kind.spelling

/-- Each token is adjacent to the next one. -/
theorem Written.adjacent {front cs : List Char} {previous : Option TokenKind} {ts : List Token}
    (h : Written front previous cs ts) : ts.IsChain (Adjacent (front ++ cs)) := by
  -- Each token is compared with the first one behind it.
  induction h with
  | finish hblank => exact .singleton _
  | @token front blanks lexeme rest previous kind ts _ hne _ _ h ih =>
    have hstop : byteSize (front ++ blanks) + (String.ofList lexeme).utf8ByteSize =
        byteSize (front ++ blanks ++ lexeme) := by
      rw [utf8ByteSize_ofList, byteSize_append (front ++ blanks)]
    have hpos := byteSize_pos hne
    simp only [List.append_assoc] at ih h hstop ⊢
    apply ih.cons
    intro b hb
    obtain ⟨hspelled, hle, gap, hgap, hblank⟩ := h.first hb
    rw [← hstop] at hle hgap
    simp only [List.append_assoc] at hgap
    refine ⟨?_, hle, ⟨gap, hgap, hblank⟩, ?_⟩
    · show byteSize (front ++ blanks) < b.start
      rw [utf8ByteSize_ofList] at hle
      omega
    -- Only a word behind a dot is read otherwise than it is spelled.
    · intro hdot hsymbol
      rcases hspelled hsymbol with htext | ⟨hprevious, -⟩
      · exact htext
      · exact absurd (congrArg some hdot) hprevious

/-! ## §4. The tokens of a text. -/

/-- How the tokens of a text cover it. -/
structure Covers (text : String) (tokens : List Token) : Prop where
  /-- The last token is the end, which stands after the last byte, and no other token is. -/
  last : ∃ front, tokens = front ++ [.finish text.utf8ByteSize] ∧ ∀ t ∈ front, t.kind ≠ .finish
  /-- Every other token is the piece of the text where it stands. -/
  piece : ∀ t ∈ tokens, t.kind ≠ .finish →
    t.text ≠ "" ∧ slice? t.start t.stop text.toList = some t.text.toList
  /-- Only blanks are before the first token. -/
  first : ∀ t ∈ tokens.head?, ∃ gap, slice? 0 t.start text.toList = some gap ∧
    ∀ c ∈ gap, isBlank c = true
  /-- Tokens do not overlap, and only blanks are between two of them. -/
  adjacent : tokens.IsChain (Adjacent text.toList)
  /-- A symbol has its own spelling, or is a word for it. -/
  symbol : ∀ t ∈ tokens, t.kind.isSymbol = true →
    t.text = t.kind.spelling ∨ TokenKind.ofWord? t.text = some t.kind

/-- What is written token by token, with blanks between, covers the text. -/
theorem covers_of_written {text : String} {tokens : List Token}
    (h : Written [] none text.toList tokens) : Covers text tokens where
  last := by
    rw [← byteSize_toList]
    exact h.finish_last
  piece t := h.piece
  first t ht := (h.first ht).2.2
  adjacent := h.adjacent
  symbol t ht hsymbol := by
    obtain ⟨previous, hspelled⟩ := h.spelled ht
    exact (hspelled hsymbol).imp_right And.right

/-- Where the tokens cannot all be collected, one of them cannot be read. -/
theorem reaches_of_collect_error {text : List Char} {past : List TokenKind} {c : Cursor} {budget : Nat}
    {read : List Token} {fault : Fault} (hreached : Reaches text past c)
    (h : c.collect budget read = .error fault) :
    ∃ past d, Reaches text past d ∧ d.current.isFinish = false ∧ d.next = .error fault := by
  -- The fault is that of the next token, or of one further on.
  induction budget generalizing past c read with
  | zero => cases h
  | succ budget ih =>
    rw [Cursor.collect] at h
    by_cases hc : c.current.isFinish = true
    · rw [if_pos hc] at h
      cases h
    · have hc' : c.current.isFinish = false := by simpa using hc
      rw [if_neg hc] at h
      cases hnext : c.next with
      | ok d =>
        rw [hnext] at h
        exact ih (hreached.next hc' hnext) h
      | error other =>
        rw [hnext] at h
        cases h
        exact ⟨past, c, hreached, hc', hnext⟩

/-- The next token has its fault between two characters of the text. -/
theorem Reaches.borders_of_next {text : List Char} {past : List TokenKind} {c : Cursor} {fault : Fault}
    (h : Reaches text past c) (hc : c.current.isFinish = false) (hnext : c.next = .error fault) :
    Scan.Borders text fault.position := by
  obtain ⟨-, hoffset, read, lexeme, hd⟩ := h.split
  rw [Cursor.next_of_not_finish hc] at hnext
  unfold Cursor.read at hnext
  split at hnext
  · rename_i htoken
    cases hnext
    obtain ⟨n, hborders, hposition⟩ := Scan.fault_of_token htoken
    have hfront : c.offset = byteSize (read ++ lexeme) := by
      rw [hoffset, Token.stop, hd.start_eq, hd.lexeme_eq, utf8ByteSize_ofList, byteSize_append]
    rw [hposition, hfront]
    apply Scan.Borders.append
    · exact ⟨c.rest, hd.text_eq.symm⟩
    · rw [hd.text_eq, List.drop_left]
      exact hborders
  · cases hnext

/-- The first token has its fault between two characters of the text. -/
theorem borders_of_open_error {text : List Char} {fault : Fault}
    (h : Cursor.open? text = .error fault) : Scan.Borders text fault.position := by
  unfold Cursor.open? Cursor.read at h
  split at h
  · rename_i htoken
    cases h
    obtain ⟨n, hborders, hposition⟩ := Scan.fault_of_token htoken
    rw [hposition, Nat.zero_add]
    exact hborders
  · cases h

/-- Where the tokens of a text cannot be read, the fault is between two of its characters. -/
theorem borders_of_tokenize_error {text : String} {fault : Fault} (h : tokenize text = .error fault) :
    Scan.Borders text.toList fault.position := by
  unfold tokenize at h
  split at h
  · rename_i hopen
    cases h
    exact borders_of_open_error hopen
  · rename_i hopen
    obtain ⟨past, d, hd, hfinish, hnext⟩ := reaches_of_collect_error (.first hopen) h
    exact hd.borders_of_next hfinish hnext

/-- **The tokens of a text cover it.**  The last of them, and no other, is the end, which stands after
the last byte.  All others are nonempty pieces of the text, which rise and do not overlap, and the text
has only blanks before the first one and between any two.  A symbol is spelled as it is listed or by a
word for it, after a dot never by a word.  If the text is not made of tokens, its fault is at a
boundary of characters within the text. -/
theorem tokenize_covers (text : String) :
    match tokenize text with
    | .ok tokens => Covers text tokens
    | .error fault =>
      fault.position ≤ text.utf8ByteSize ∧ (takeBytes? fault.position text.toList).isSome = true := by
  cases h : tokenize text with
  | ok tokens =>
    obtain ⟨c, ts, hopen, rfl, hafter⟩ := after_of_tokenize h
    exact covers_of_written (@written_of_after _ _ hafter _ [] _ _ hopen)
  | error fault =>
    obtain ⟨front, ⟨rest, hrest⟩, hposition⟩ := borders_of_tokenize_error h
    show fault.position ≤ _ ∧ (takeBytes? fault.position _).isSome = true
    rw [← hposition, ← byteSize_toList, ← hrest, takeBytes?_append]
    refine ⟨?_, rfl⟩
    rw [byteSize_append]
    omega

/-- A word for a symbol is a name after a dot. -/
example : (tokenize "x.and and 1").map (List.map Token.kind) =
    .ok [.identifier, .dot, .identifier, .doubleAmpersand, .integerLiteral, .finish] := rfl

end TypeAhead
