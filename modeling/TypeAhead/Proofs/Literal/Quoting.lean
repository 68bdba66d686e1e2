/-
  TypeAhead.Proofs.Literal.Quoting — EVERY TEXT HAS A LITERAL.

  A text is written between double quotes, its backslashes and double quotes
  escaped as the dialect has it.  The scanner finds the closing quote and no
  sooner end, and the decoder undoes character for character what was written:
  the unit that one character is written as is passed whole by both.

      literal?_writtenAll   the scanner stops at the closing quote
      value_quote           the decoder gives the text back
      quoted_reads_back     the literal is one token, and means the text
-/
import TypeAhead.Literal.Quoted
import TypeAhead.Proofs.Token.Extension

namespace TypeAhead

open Text

namespace Literal

/-! ## §1. Writing a text as a literal. -/

/-- How a dialect writes a character between double quotes. -/
def written : Dialect → Char → List Char
  | .backslash, c => if c = '\\' ∨ c = '"' then ['\\', c] else [c]
  | .doubled, c => if c = '\\' ∨ c = '"' then [c, c] else [c]

/-- The body of the literal for a text. -/
def writtenAll (d : Dialect) (cs : List Char) : List Char := cs.flatMap (written d)

/-- **The literal in double quotes that is written for a text.** -/
def quote (d : Dialect) (text : String) : String :=
  String.ofList ('"' :: (writtenAll d text.toList ++ ['"']))

@[simp] theorem writtenAll_nil (d : Dialect) : writtenAll d [] = [] := rfl

@[simp] theorem writtenAll_cons (d : Dialect) (c : Char) (cs : List Char) :
    writtenAll d (c :: cs) = written d c ++ writtenAll d cs := rfl

theorem written_backslash (d : Dialect) : written d '\\' = ['\\', '\\'] := by
  cases d <;> rfl

theorem written_quote (d : Dialect) : written d '"' = ['\\', '"'] ∨ written d '"' = ['"', '"'] := by
  cases d
  · exact .inl rfl
  · exact .inr rfl

/-- All other characters stand for themselves. -/
theorem written_plain (d : Dialect) {c : Char} (hback : c ≠ '\\') (hquote : c ≠ '"') :
    written d c = [c] := by
  cases d <;> simp [written, hback, hquote]

/-! ## §2. The scanner. -/

/-- **The scanner stops at the closing quote**, and takes all of the body before it. -/
theorem literal?_writtenAll (d : Dialect) (cs read : List Char) :
    Scan.literal? '"' read (writtenAll d cs ++ ['"']) =
      some (read.reverse ++ writtenAll d cs ++ ['"']) := by
  induction cs generalizing read with
  | nil => simp [Scan.literal?]
  | cons c cs ih =>
    rw [writtenAll_cons]
    by_cases hback : c = '\\'
    · subst hback
      simp [written_backslash, Scan.literal?, ih]
    · by_cases hquote : c = '"'
      · subst hquote
        -- An escaped quote is protected, a doubled one goes on with the literal.
        rcases written_quote d with hw | hw
        · simp [hw, Scan.literal?, ih]
        · simp [hw, Scan.literal?_cons, ih]
      · rw [written_plain d hback hquote, List.cons_append, List.nil_append, List.cons_append,
          Scan.literal?_cons hback, if_neg hquote, ih]
        simp

/-- The literal for a text is one token. -/
theorem token_quote (d : Dialect) (text : String) (previous : Option TokenKind)
    (hsize : (quote d text).utf8ByteSize ≤ Limits.literalBytes) :
    Scan.token previous 0 (quote d text).toList = .ok (⟨.stringLiteral, quote d text, 0⟩, []) := by
  have hlexeme : Scan.lexeme previous 0 '"' (writtenAll d text.toList ++ ['"']) =
      .ok (.stringLiteral, '"' :: (writtenAll d text.toList ++ ['"'])) := by
    have hquoted : Scan.literal? '"' ['"'] (writtenAll d text.toList ++ ['"']) =
        some ('"' :: (writtenAll d text.toList ++ ['"'])) := literal?_writtenAll d text.toList ['"']
    rw [quote, utf8ByteSize_ofList] at hsize
    exact Scan.lexeme_eq_iff.2 (.literal rfl (.inl rfl) (Scan.quoted_eq_ok_iff.2 ⟨rfl, hquoted, hsize⟩))
  rw [quote, String.toList_ofList, Scan.token_of_lexeme (by decide) hlexeme, List.drop_length]

/-- The tokens of a text that is one token. -/
theorem tokenize_of_token {text : String} {t : Token} (ht : t.kind ≠ .finish)
    (h : Scan.token none 0 text.toList = .ok (t, [])) :
    tokenize text = .ok [t, .finish t.stop] := by
  have hopen : Cursor.open? text.toList = .ok ⟨byteSize text.toList, t.stop, [], t⟩ := by
    simp only [Cursor.open?, Cursor.read, h]
  have hfinish : t.isFinish = false := by simpa [Token.isFinish] using ht
  have hpos : text.toList ≠ [] := by
    intro hnil
    rw [hnil] at h
    cases h
    exact ht rfl
  obtain ⟨n, hn⟩ := Nat.exists_eq_succ_of_ne_zero (Nat.ne_of_gt (byteSize_pos hpos))
  simp only [tokenize, hopen, hn, Cursor.collect, hfinish, Cursor.next, Cursor.read, Scan.token]
  rfl

/-! ## §3. The decoder. -/

/-- What is left of a character once its escapes are decoded: the dialect of doubled quotes still
has its quotes doubled. -/
def halfWritten : Dialect → Char → List Char
  | .backslash, c => [c]
  | .doubled, c => if c = '"' then ['"', '"'] else [c]

/-- A backslash and a double quote, after a backslash, stand for themselves. -/
theorem escape_of_protected {c : Char} (h : c = '\\' ∨ c = '"') (cs : List Char) :
    escape c cs = .ok (c, 0) := by
  rcases h with rfl | rfl <;> rfl

theorem decode_escaped {c : Char} (h : c = '\\' ∨ c = '"') (decoded cs : List Char) :
    decode decoded 0 ('\\' :: c :: cs) = decode (c :: decoded) 0 cs := by
  simp only [decode, escape_of_protected h]

theorem decode_plain {c : Char} (h : c ≠ '\\') (decoded cs : List Char) :
    decode decoded 0 (c :: cs) = decode (c :: decoded) 0 cs := by
  rw [decode.eq_def]
  split <;> simp_all

/-- **Decoding the escapes** of a written body. -/
theorem decode_writtenAll (d : Dialect) (cs decoded : List Char) :
    decode decoded 0 (writtenAll d cs) = .ok (decoded.reverse ++ cs.flatMap (halfWritten d)) := by
  -- Character by character: each is decoded as it was written, and a quote is left doubled.
  induction cs generalizing decoded with
  | nil => simp [decode]
  | cons c cs ih =>
    rw [writtenAll_cons, List.flatMap_cons]
    by_cases hback : c = '\\'
    · subst hback
      have hhalf : halfWritten d '\\' = ['\\'] := by cases d <;> rfl
      rw [written_backslash, List.cons_append, List.singleton_append, decode_escaped (.inl rfl), ih,
        hhalf]
      simp
    · by_cases hquote : c = '"'
      · subst hquote
        cases d with
        | backslash =>
          rw [written, if_pos (.inr rfl), List.cons_append, List.singleton_append,
            decode_escaped (.inr rfl), ih]
          simp [halfWritten]
        | doubled =>
          rw [written, if_pos (.inr rfl), List.cons_append, List.singleton_append,
            decode_plain hback, decode_plain hback, ih]
          simp [halfWritten]
      · have hhalf : halfWritten d c = [c] := by cases d <;> simp [halfWritten, hquote]
        rw [written_plain d hback hquote, List.singleton_append, decode_plain hback, ih, hhalf]
        simp

theorem mergeQuotes_plain {c : Char} (h : c ≠ '"') (merged cs : List Char) :
    mergeQuotes merged (c :: cs) = mergeQuotes (c :: merged) cs := by
  rw [mergeQuotes.eq_def]
  split <;> simp_all

/-- Merging doubled quotes, from the left, takes each pair that was written as one. -/
theorem mergeQuotes_halfWritten (cs merged : List Char) :
    mergeQuotes merged (cs.flatMap (halfWritten .doubled)) = merged.reverse ++ cs := by
  induction cs generalizing merged with
  | nil => simp [mergeQuotes]
  | cons c cs ih =>
    rw [List.flatMap_cons]
    by_cases hquote : c = '"'
    · subst hquote
      simp [halfWritten, mergeQuotes, ih]
    · simp [halfWritten, hquote, mergeQuotes_plain, ih]

theorem collapse_halfWritten (d : Dialect) (cs : List Char) :
    collapse d (cs.flatMap (halfWritten d)) = cs := by
  cases d with
  | backslash => exact List.flatMap_singleton' cs
  | doubled => exact mergeQuotes_halfWritten cs []

/-- A body between two quotes that match stands for what it decodes to. -/
theorem value_of_body (d : Dialect) (position : Nat) {mark : Char} (hmark : mark = '"' ∨ mark = '\'')
    {body decoded : List Char} (h : unescape body = .ok decoded) :
    value d position (String.ofList (mark :: (body ++ [mark]))) =
      .ok (String.ofList (collapse d decoded)) := by
  obtain ⟨c, cs, hcons⟩ : ∃ c cs, body ++ [mark] = c :: cs :=
    List.exists_cons_of_ne_nil (by simp)
  have hquote : (mark ≠ '"' && mark ≠ '\'') = false := by
    rcases hmark with rfl | rfl <;> rfl
  have hlast : (c :: cs).getLast? = some mark := by rw [← hcons]; simp
  have hbody : (c :: cs).dropLast = body := by rw [← hcons]; simp
  simp only [value, String.toList_ofList, hcons, hquote, hlast, hbody, h]
  simp

/-- **The decoder gives the text back.** -/
theorem value_quote (d : Dialect) (position : Nat) (text : String) :
    value d position (quote d text) = .ok text := by
  have hdecoded : unescape (writtenAll d text.toList) = .ok (text.toList.flatMap (halfWritten d)) :=
    decode_writtenAll d text.toList []
  rw [quote, value_of_body d position (.inl rfl) hdecoded, collapse_halfWritten, String.ofList_toList]

/-! ## §4. The text that a literal was written for. -/

/-- **Every text has a literal in both dialects**: the literal written for it, if it is not too
large, is one token with nothing around it, and stands for the text. -/
theorem quoted_reads_back (d : Dialect) (text : String)
    (hsize : (quote d text).utf8ByteSize ≤ Limits.literalBytes) :
    tokenize (quote d text) =
        .ok [⟨.stringLiteral, quote d text, 0⟩, .finish (quote d text).utf8ByteSize] ∧
      ∀ position, value d position (quote d text) = .ok text := by
  refine ⟨?_, fun position => value_quote d position text⟩
  have hkind : (⟨.stringLiteral, quote d text, 0⟩ : Token).kind ≠ .finish := TokenKind.noConfusion
  rw [tokenize_of_token hkind (token_quote d text none hsize)]
  simp [Token.stop]

/-- Quotes at both ends and a backslash before one of them. -/
theorem quoted_reads_back_quotes :
    (quote .doubled "\"\\\"\"").utf8ByteSize ≤ Limits.literalBytes ∧
      tokenize "\"\"\"\\\\\"\"\"\"\"" =
        .ok [⟨.stringLiteral, "\"\"\"\\\\\"\"\"\"\"", 0⟩, .finish 10] ∧
      ∀ position, value .doubled position "\"\"\"\\\\\"\"\"\"\"" = .ok "\"\\\"\"" := by
  have hsize : (quote .doubled "\"\\\"\"").utf8ByteSize ≤ Limits.literalBytes := by decide
  exact ⟨hsize, quoted_reads_back .doubled "\"\\\"\"" hsize⟩

end Literal

end TypeAhead
