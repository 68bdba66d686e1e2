/-
  TypeAhead.Proofs.Literal.Closed — WHICH LITERALS ARE CLOSED.

  A literal that the scanner reads stands between two quotes of one kind, so by
  itself it is closed.  Literals in a row are put together as they are written, with
  their quotes: the row starts with the first quote of its first literal and ends
  with the last quote of its last one.  It is closed if these are the same.

      quoted_of_token     a literal by itself
      Row                 literals one after the other
      value_of_mixed      quotes that differ
      value_of_matched    quotes that match
-/
import TypeAhead.Literal.Quoted
import TypeAhead.Proofs.Token.Coverage
import TypeAhead.Proofs.Token.Faults

namespace TypeAhead

/-! ## §1. Quotes. -/

/-- One of the two quotes. -/
def IsQuote (c : Char) : Prop := c = '"' ∨ c = '\''

/-- A text that starts with the quote `first` and ends with the quote `last`. -/
structure Quoted (first last : Char) (text : String) : Prop where
  isQuote : IsQuote first ∧ IsQuote last
  between : ∃ body, text.toList = first :: (body ++ [last])

variable {first last mark : Char} {text other : String}

theorem Quoted.head? (h : Quoted first last text) : text.toList.head? = some first := by
  obtain ⟨body, hbody⟩ := h.between
  rw [hbody]
  rfl

/-- Texts in quotes, one after the other. -/
theorem Quoted.append (h : Quoted first mark text) {mark' : Char} (h' : Quoted mark' last other) :
    Quoted first last (text ++ other) := by
  obtain ⟨body, hbody⟩ := h.between
  obtain ⟨body', hbody'⟩ := h'.between
  refine ⟨⟨h.isQuote.1, h'.isQuote.2⟩, body ++ mark :: mark' :: body', ?_⟩
  rw [String.toList_append, hbody, hbody']
  simp

namespace Scan

variable {previous : Option TokenKind} {start : Nat} {c : Char} {cs rest lexeme : List Char}
  {kind : TokenKind} {t : Token}

/-- What a literal adds to the characters read before ends with its quote. -/
theorem literal?_closed {quote : Char} {read : List Char} (h : literal? quote read cs = some lexeme) :
    ∃ body, lexeme = read.reverse ++ (body ++ [quote]) := by
  -- By the ways in which a literal goes on; the quote that closes it is read last in each of them.
  fun_induction literal? quote read cs with
  | case1 => cases h
  | case2 => cases h
  | case3 read c cs ih =>
    obtain ⟨body, rfl⟩ := ih h
    exact ⟨'\\' :: c :: body, by simp⟩
  | case4 read cs _ _ ih =>
    obtain ⟨body, rfl⟩ := ih h
    exact ⟨quote :: quote :: body, by simp⟩
  | case5 read c cs =>
    cases h
    exact ⟨[], by simp⟩
  | case6 read =>
    cases h
    exact ⟨[], by simp⟩
  | case7 read c cs _ _ _ ih =>
    obtain ⟨body, rfl⟩ := ih h
    exact ⟨c :: body, by simp⟩

theorem quoted_of_lexeme (h : Scan.lexeme previous start c cs = .ok (kind, lexeme))
    (hkind : kind = .stringLiteral) : Quoted c c (String.ofList lexeme) := by
  subst hkind
  cases lexeme_eq_iff.1 h with
  | symbol _ hsymbol hread =>
    cases hread
    cases isSymbol_of_symbol? hsymbol
  | literal _ hquote hread =>
    obtain ⟨-, hread, -⟩ := quoted_eq_ok_iff.1 hread
    obtain ⟨body, hbody⟩ := literal?_closed hread
    exact ⟨⟨hquote, hquote⟩, body, by rw [String.toList_ofList, hbody]; rfl⟩
  | word _ _ _ hread =>
    obtain ⟨hkind, -, -⟩ := word_eq_ok_iff.1 hread
    exact absurd hkind.symm (wordKind_ne (by decide) _ _)
  | number _ _ _ _ hread => cases isNumber_of_number hread
  | other _ _ _ _ hread => cases hread

/-- **A literal stands between two quotes of one kind.** -/
theorem quoted_of_token (h : Scan.token previous start cs = .ok (t, rest))
    (hkind : t.kind = .stringLiteral) : ∃ mark, Quoted mark mark t.text := by
  rcases token_cases h with ⟨-, rfl, -⟩ | ⟨c, tail, kind, lexeme, -, hlexeme, rfl, -⟩
  · cases hkind
  · exact ⟨c, quoted_of_lexeme hlexeme hkind⟩

end Scan

/-! ## §2. Literals of a text. -/

variable {source : List Char} {past : List TokenKind} {c d : Cursor} {joined : String}

/-- The current token was read by the scanner. -/
theorem Reaches.token (h : Reaches source past c) :
    ∃ previous start cs, Scan.token previous start cs = .ok (c.current, c.rest) := by
  cases h with
  | first hopen => exact ⟨_, _, _, (Cursor.read_eq_ok hopen).2.2⟩
  | next h hb hnext =>
    rw [Cursor.next_of_not_finish hb] at hnext
    exact ⟨_, _, _, (Cursor.read_eq_ok hnext).2.2⟩

theorem Reaches.quoted (h : Reaches source past c) (hkind : c.current.kind = .stringLiteral) :
    ∃ mark, Quoted mark mark c.current.text := by
  obtain ⟨previous, start, cs, htoken⟩ := h.token
  exact Scan.quoted_of_token htoken hkind

/-- Past a literal there is a token of the text. -/
theorem Reaches.next_of_literal (h : Reaches source past c) (hkind : c.current.kind = .stringLiteral)
    (hnext : c.next = .ok d) : Reaches source (c.current.kind :: past) d :=
  h.next (by rw [Token.isFinish, hkind]; rfl) hnext

/-- `Row c joined last d`: from `c` up to `d` stand string literals, of which the last one is at `last`;
put together as they are written they are `joined`. -/
inductive Row : Cursor → String → Cursor → Cursor → Prop where
  | single {c d : Cursor} (hc : c.current.kind = .stringLiteral) (hnext : c.next = .ok d) :
      Row c c.current.text c d
  | more {c last d e : Cursor} {joined : String} (h : Row c joined last d)
      (hd : d.current.kind = .stringLiteral) (hnext : d.next = .ok e) :
      Row c (joined ++ d.current.text) d e

/-- **A row starts with the quote of its first literal and ends with that of its last one.** -/
theorem Row.quoted {last : Cursor} (h : Row c joined last d) (hc : Reaches source past c) :
    (∃ first mark, Quoted first first c.current.text ∧ Quoted mark mark last.current.text ∧
      Quoted first mark joined) ∧ ∃ past, Reaches source past d := by
  induction h with
  | single hkind hnext =>
    obtain ⟨mark, hquoted⟩ := hc.quoted hkind
    exact ⟨⟨mark, mark, hquoted, hquoted, hquoted⟩, _, hc.next_of_literal hkind hnext⟩
  | more h hd hnext ih =>
    obtain ⟨⟨first, mark, hfirst, -, hjoined⟩, past, hreached⟩ := ih
    obtain ⟨mark', hquoted⟩ := hreached.quoted hd
    exact ⟨⟨first, mark', hfirst, hquoted, hjoined.append hquoted⟩, _,
      hreached.next_of_literal hd hnext⟩

/-- A row of literals of the text from `c` up to `d`, where it is over, that starts in double quotes and
ends in single quotes. -/
def MixedRow (source : List Char) (c d : Cursor) : Prop :=
  ∃ past joined last, Reaches source past c ∧ Row c joined last d ∧ d.current.kind ≠ .stringLiteral ∧
    Quoted '"' '"' c.current.text ∧ Quoted '\'' '\'' last.current.text

/-! ## §3. What a literal in quotes stands for. -/

namespace Literal

variable {dialect : Dialect} {position : Nat} {fault : Fault}

/-- **Quotes that differ close nothing.** -/
theorem value_of_mixed (h : Quoted first last text) (hne : last ≠ first) :
    value dialect position text = .error ⟨.literalNotClosed, position⟩ := by
  obtain ⟨body, hbody⟩ := h.between
  obtain ⟨d, cs, hcons⟩ : ∃ d cs, body ++ [last] = d :: cs := List.exists_cons_of_ne_nil (by simp)
  have hquote : (first ≠ '"' && first ≠ '\'') = false := by
    rcases h.isQuote.1 with rfl | rfl <;> rfl
  have hlast : (d :: cs).getLast? ≠ some first := by
    rw [← hcons]
    simpa using hne
  simp only [value, hbody, hcons, hquote]
  rw [if_neg Bool.false_ne_true, if_pos hlast]

/-- **Between quotes that match** only the escapes may be wrong. -/
theorem value_of_matched (h : Quoted mark mark text) (hvalue : value dialect position text = .error fault) :
    ∃ reason, fault.cause = .invalidEscape reason := by
  obtain ⟨body, hbody⟩ := h.between
  obtain ⟨d, cs, hcons⟩ : ∃ d cs, body ++ [mark] = d :: cs := List.exists_cons_of_ne_nil (by simp)
  have hquote : (mark ≠ '"' && mark ≠ '\'') = false := by
    rcases h.isQuote.1 with rfl | rfl <;> rfl
  have hlast : (d :: cs).getLast? = some mark := by
    rw [← hcons]
    simp
  simp only [value, hbody, hcons, hquote, hlast] at hvalue
  rw [if_neg Bool.false_ne_true, if_neg (fun h => h rfl)] at hvalue
  split at hvalue
  · cases hvalue
    exact ⟨_, rfl⟩
  · cases hvalue

/-- What a literal of the text stands for is wrong for a plain cause, if it is. -/
theorem isPlain_of_value (h : Reaches source past c) (hkind : c.current.kind = .stringLiteral)
    (hvalue : value dialect position c.current.text = .error fault) : fault.cause.isPlain = true := by
  obtain ⟨mark, hquoted⟩ := h.quoted hkind
  obtain ⟨reason, hcause⟩ := value_of_matched hquoted hvalue
  rw [hcause]
  rfl

/-- **A row is wrong for a plain cause, or its quotes differ.** -/
theorem plain_or_mixed_of_value {last : Cursor} (hrow : Row c joined last d) (h : Reaches source past c)
    (hvalue : value dialect position joined = .error fault) : fault.cause.isPlain = true ∨
      (fault = ⟨.literalNotClosed, position⟩ ∧ ∃ first mark, mark ≠ first ∧
        Quoted first first c.current.text ∧ Quoted mark mark last.current.text) := by
  obtain ⟨⟨first, mark, hfirst, hlast, hjoined⟩, -⟩ := hrow.quoted h
  by_cases hne : mark = first
  · -- Outer quotes that match are enough, whatever the quotes between them are.
    subst hne
    obtain ⟨reason, hcause⟩ := value_of_matched hjoined hvalue
    rw [hcause]
    exact .inl rfl
  · rw [value_of_mixed hjoined hne] at hvalue
    cases hvalue
    exact .inr ⟨rfl, first, mark, hne, hfirst, hlast⟩

/-- A row that starts in double quotes and is not closed ends in single quotes. -/
theorem plain_or_mixedRow_of_value {last : Cursor} (hrow : Row c joined last d)
    (h : Reaches source past c) (hc : c.current.text.toList.head? ≠ some '\'')
    (hd : d.current.kind ≠ .stringLiteral) (hvalue : value dialect position joined = .error fault) :
    fault.cause.isPlain = true ∨ fault = ⟨.literalNotClosed, position⟩ ∧ MixedRow source c d := by
  refine (plain_or_mixed_of_value hrow h hvalue).imp_right ?_
  rintro ⟨hfault, first, mark, hne, hfirst, hlast⟩
  have hdouble : first = '"' := hfirst.isQuote.1.resolve_right fun hsingle =>
    hc (hsingle ▸ hfirst.head?)
  subst hdouble
  obtain rfl := hlast.isQuote.1.resolve_left hne
  exact ⟨hfault, past, joined, last, h, hrow, hd, hfirst, hlast⟩

end Literal

end TypeAhead
