/-
  TypeAhead.Proofs.Token.Reading — WHERE THE TOKENS OF A TEXT STAND.

  The cursors that reading a text token by token leads to, each with the kinds of
  the tokens before it.  They stand at rising offsets on boundaries of characters,
  there is at most one for each offset, and what was read, the current token and
  what is still ahead make up the text.

      Reaches.split         read, current token, rest
      Reaches.start_lt      later tokens start later
      Reaches.unique        one cursor for each offset
-/
import TypeAhead.Proofs.Token.Lexeme

namespace TypeAhead

open Text

/-! ## §1. Reading one token. -/

namespace Cursor

/-- What is read is a token, and the cursor goes on where it ends. -/
theorem read_eq_ok {size offset : Nat} {previous : Option TokenKind} {rest : List Char}
    {c : Cursor} (h : read size previous offset rest = .ok c) :
    c.size = size ∧ c.offset = c.current.stop ∧
      Scan.token previous offset rest = .ok (c.current, c.rest) := by
  unfold read at h
  split at h
  · cases h
  · rename_i t rest ht
    cases h
    exact ⟨rfl, rfl, ht⟩

/-- Away from the end, the next token is read from the offset that the cursor has. -/
theorem next_of_not_finish {c : Cursor} (h : c.current.isFinish = false) :
    c.next = read c.size (some c.current.kind) c.offset c.rest := by
  rw [next, h]
  rfl

/-- What is next does not depend on how the current token is worded or where it starts. -/
theorem next_congr {c d : Cursor} (hsize : c.size = d.size) (hoffset : c.offset = d.offset)
    (hrest : c.rest = d.rest) (hkind : c.current.kind = d.current.kind)
    (h : d.current.isFinish = false) : c.next = d.next := by
  have hc : c.current.isFinish = false := by
    rwa [Token.isFinish, hkind]
  rw [next_of_not_finish hc, next_of_not_finish h, hsize, hoffset, hrest, hkind]

/-- No more tokens than this are ahead: each takes a character. -/
def ahead (c : Cursor) : Nat := if c.current.isFinish then 0 else c.rest.length + 1

/-- The token after another one takes a character of the rest. -/
theorem ahead_next {c d : Cursor} (hc : c.current.isFinish = false) (h : c.next = .ok d) :
    d.ahead < c.ahead := by
  rw [next_of_not_finish hc] at h
  obtain ⟨-, -, htoken⟩ := read_eq_ok h
  have hahead : c.ahead = c.rest.length + 1 := by simp [ahead, hc]
  rw [hahead]
  cases Scan.token_splits htoken with
  | finish hkind =>
    have hd : d.current.isFinish = true := by simp [Token.isFinish, hkind]
    simp [ahead, hd]
  | lexeme blanks lexeme hkind hrest hne =>
    have hlength := List.length_pos_iff.2 hne
    rw [hrest, List.length_append, List.length_append]
    unfold ahead
    split <;> omega

theorem ahead_le_of_next {c d : Cursor} (h : c.next = .ok d) : d.ahead ≤ c.ahead := by
  cases hc : c.current.isFinish with
  | true =>
    rw [next, if_pos hc] at h
    cases h
    exact Nat.le_refl _
  | false => exact Nat.le_of_lt (ahead_next hc h)

/-- The first token of a text is no name that stands for a symbol. -/
theorem isWord_of_open {text : List Char} {c : Cursor} (hopen : open? text = .ok c) {word : String}
    (hword : TokenKind.ofWord? word ≠ none) : c.isWord word = false := by
  refine Bool.eq_false_iff.2 fun h => hword ?_
  simp only [isWord, Text.sameWord, Bool.and_eq_true, beq_iff_eq] at h
  obtain ⟨-, -, htoken⟩ := read_eq_ok hopen
  rw [TokenKind.ofWord?, ← h.2]
  exact Scan.ofWord?_of_token (nofun : none ≠ some TokenKind.dot) htoken h.1

end Cursor

/-- The text is over. -/
abbrev AtEnd (d : Cursor) : Prop := d.current.isFinish = true

/-- A dot with a name after it, and nothing after that. -/
structure LastMember (d : Cursor) : Prop where
  dot : d.current.kind = .dot
  text : d.current.text = "."
  name : ∃ e f, d.next = .ok e ∧ e.current.kind = .identifier ∧ e.next = .ok f ∧ AtEnd f

theorem LastMember.isKind {d : Cursor} (h : LastMember d) {kind : TokenKind} (hkind : kind ≠ .dot) :
    d.isKind kind = false := by
  simp [Cursor.isKind, h.dot, hkind.symm]

/-! ## §2. Reading a text. -/

/-- `Reaches text past c`: reading `text` from its first token on leads to `c`, past tokens of the
kinds `past`, the last one first. -/
inductive Reaches (text : List Char) : List TokenKind → Cursor → Prop where
  | first {c : Cursor} (hopen : Cursor.open? text = .ok c) : Reaches text [] c
  | next {past : List TokenKind} {c d : Cursor} (h : Reaches text past c)
      (hc : c.current.isFinish = false) (hnext : c.next = .ok d) :
      Reaches text (c.current.kind :: past) d

namespace Reaches

variable {text : List Char} {past past' : List TokenKind} {c d : Cursor}

/-- How a cursor divides a text: what is read already, the lexeme of the current token, which is
empty only at the end, and the rest. -/
structure Divides (text : List Char) (c : Cursor) (read lexeme : List Char) : Prop where
  text_eq : text = read ++ lexeme ++ c.rest
  start_eq : c.current.start = byteSize read
  lexeme_eq : c.current.text = String.ofList lexeme
  finish_iff : c.current.kind = .finish ↔ lexeme = []
  rest_eq : c.current.kind = .finish → c.rest = []

theorem divides_of_splits {front cs : List Char} {t : Token} {rest : List Char}
    (h : Scan.Splits (byteSize front) cs t rest) :
    ∃ read lexeme, Divides (front ++ cs) ⟨byteSize (front ++ cs), t.stop, rest, t⟩ read lexeme := by
  cases h with
  | finish hkind hblank htext hstart hrest =>
    subst hrest
    refine ⟨front ++ cs, [], by simp, ?_, htext, by simp [hkind], fun _ => rfl⟩
    rw [hstart, byteSize_append]
  | lexeme blanks lexeme hkind hcs hne htext hstart =>
    subst hcs
    refine ⟨front ++ blanks, lexeme, by simp, ?_, htext, by simp [hkind, hne],
      fun h => absurd h hkind⟩
    rw [hstart, byteSize_append]

/-- **What was read, the current token and what is ahead make up the text**, and the offsets of
the cursor are sizes of its parts. -/
theorem split (h : Reaches text past c) :
    c.size = byteSize text ∧ c.offset = c.current.stop ∧ ∃ read lexeme, Divides text c read lexeme := by
  induction h with
  | first hopen =>
    obtain ⟨hsize, hoffset, htoken⟩ := Cursor.read_eq_ok hopen
    obtain ⟨read, lexeme, hdivides⟩ := @divides_of_splits [] _ _ _ (Scan.token_splits htoken)
    exact ⟨hsize, hoffset, read, lexeme, hdivides.1, hdivides.2, hdivides.3, hdivides.4, hdivides.5⟩
  | @next past c d h hc hnext ih =>
    obtain ⟨hsize, hoffset, read, lexeme, ih⟩ := ih
    rw [Cursor.next_of_not_finish hc] at hnext
    obtain ⟨hsize', hoffset', htoken⟩ := Cursor.read_eq_ok hnext
    have hfront : c.offset = byteSize (read ++ lexeme) := by
      rw [hoffset, Token.stop, ih.start_eq, ih.lexeme_eq, utf8ByteSize_ofList, byteSize_append]
    rw [hfront] at htoken
    obtain ⟨read', lexeme', hd⟩ := divides_of_splits (Scan.token_splits htoken)
    rw [← ih.text_eq] at hd
    exact ⟨hsize'.trans hsize, hoffset', read', lexeme', hd.1, hd.2, hd.3, hd.4, hd.5⟩

/-- A token starts with no blank. -/
theorem head (h : Reaches text past c) (hc : c.current.isFinish = false) :
    ∃ d tail, c.current.text.toList = d :: tail ∧ isBlank d = false := by
  have hkind : c.current.kind ≠ .finish := Token.isFinish_eq_false_iff.1 hc
  cases h with
  | first hopen => exact Scan.head_of_token (Cursor.read_eq_ok hopen).2.2 hkind
  | next h hb hnext =>
    rw [Cursor.next_of_not_finish hb] at hnext
    exact Scan.head_of_token (Cursor.read_eq_ok hnext).2.2 hkind

/-! ## §3. Offsets. -/

/-- No token starts past the end of the text. -/
theorem start_le (h : Reaches text past c) : c.current.start ≤ byteSize text := by
  obtain ⟨-, -, read, lexeme, hd⟩ := h.split
  rw [hd.start_eq, hd.text_eq]
  simp only [byteSize_append]
  omega

/-- A token that is not the end takes some bytes. -/
theorem start_lt_offset (h : Reaches text past c) (hc : c.current.isFinish = false) :
    c.current.start < c.offset := by
  obtain ⟨-, hoffset, read, lexeme, hd⟩ := h.split
  have hne : lexeme ≠ [] := by
    intro hnil
    rw [Token.isFinish, hd.finish_iff.2 hnil] at hc
    cases hc
  have hpos := byteSize_pos hne
  rw [hoffset, Token.stop, hd.lexeme_eq, utf8ByteSize_ofList]
  omega

/-- The next token starts at or after the offset of the cursor. -/
theorem offset_le_next (hc : c.current.isFinish = false) (hnext : c.next = .ok d) :
    c.offset ≤ d.current.start := by
  rw [Cursor.next_of_not_finish hc] at hnext
  obtain ⟨-, -, htoken⟩ := Cursor.read_eq_ok hnext
  cases Scan.token_splits htoken with
  | finish _ _ _ hstart => omega
  | lexeme _ _ _ _ _ _ hstart => omega

/-- The end of the text is where its last byte is. -/
theorem start_of_finish (h : Reaches text past c) (hc : c.current.isFinish = true) :
    c.current.start = byteSize text := by
  obtain ⟨-, -, read, lexeme, hd⟩ := h.split
  have hkind : c.current.kind = .finish := Token.isFinish_iff.1 hc
  rw [hd.start_eq, hd.text_eq, hd.finish_iff.1 hkind, hd.rest_eq hkind]
  simp

/-- **A token starts on a boundary of characters.** -/
theorem boundary (h : Reaches text past c) : ∃ read rest,
    text = read ++ rest ∧ byteSize read = c.current.start := by
  obtain ⟨-, -, read, lexeme, hd⟩ := h.split
  exact ⟨read, lexeme ++ c.rest, by rw [← List.append_assoc, ← hd.text_eq], hd.start_eq.symm⟩

/-! ## §4. One cursor for each offset. -/

/-- Reading is a function of the number of tokens read. -/
theorem eq_of_length (h : Reaches text past c) (h' : Reaches text past' d)
    (hlength : past.length = past'.length) : past = past' ∧ c = d := by
  induction h generalizing past' d with
  | first hopen =>
    cases h' with
    | first hopen' => exact ⟨rfl, Except.ok.inj (hopen.symm.trans hopen')⟩
    | next => simp at hlength
  | next h hc hnext ih =>
    cases h' with
    | first => simp at hlength
    | next h' hc' hnext' =>
      obtain ⟨rfl, rfl⟩ := ih h' (by simpa using hlength)
      exact ⟨rfl, Except.ok.inj (hnext.symm.trans hnext')⟩

/-- **Later tokens start later.** -/
theorem start_lt (h : Reaches text past c) (h' : Reaches text past' d)
    (hlength : past.length < past'.length) : c.current.start < d.current.start := by
  induction h' with
  | first => simp at hlength
  | @next past' b d h' hb hnext ih =>
    have hlt : b.current.start < d.current.start :=
      Nat.lt_of_lt_of_le (h'.start_lt_offset hb) (offset_le_next hb hnext)
    rcases Nat.lt_or_ge past.length past'.length with hlt' | hge
    · exact Nat.lt_trans (ih hlt') hlt
    · obtain ⟨-, rfl⟩ := h.eq_of_length h' (by simp at hlength; omega)
      exact hlt

/-- **At most one cursor stands at each offset.** -/
theorem unique (h : Reaches text past c) (h' : Reaches text past' d)
    (hstart : c.current.start = d.current.start) : past = past' ∧ c = d := by
  rcases Nat.lt_trichotomy past.length past'.length with hlt | heq | hgt
  · exact absurd hstart (Nat.ne_of_lt (h.start_lt h' hlt))
  · exact h.eq_of_length h' heq
  · exact absurd hstart.symm (Nat.ne_of_lt (h'.start_lt h hgt))

end Reaches

/-! ## §5. Walking with edited tokens. -/

/-- `Stands text past c`: the cursor is one that reading leads to, save for how its current token
is worded, which may also start earlier. -/
def Stands (text : List Char) (past : List TokenKind) (c : Cursor) : Prop :=
  ∃ r, Reaches text past r ∧ c.size = r.size ∧ c.offset = r.offset ∧ c.rest = r.rest ∧
    c.current.kind = r.current.kind ∧ c.current.start ≤ r.current.start

namespace Stands

variable {text : List Char} {past : List TokenKind} {c d : Cursor}

theorem of_reaches (h : Reaches text past c) : Stands text past c :=
  ⟨c, h, rfl, rfl, rfl, rfl, Nat.le_refl _⟩

theorem reword (h : Stands text past c) (word : String) : Stands text past (c.reword word) := h

/-- A token in place of the current one that is of its kind and starts no later. -/
theorem replace (h : Stands text past c) {token : Token} (hkind : token.kind = c.current.kind)
    (hstart : token.start ≤ c.current.start) : Stands text past { c with current := token } := by
  obtain ⟨r, hr, hsize, hoffset, hrest, hk, hs⟩ := h
  exact ⟨r, hr, hsize, hoffset, hrest, hkind.trans hk, Nat.le_trans hstart hs⟩

/-- **Going on leads to a token as it was read**, which starts later. -/
theorem next (h : Stands text past c) (hc : c.current.isFinish = false) (hnext : c.next = .ok d) :
    Reaches text (c.current.kind :: past) d ∧ c.current.start < d.current.start := by
  obtain ⟨r, hr, hsize, hoffset, hrest, hkind, hstart⟩ := h
  have hrf : r.current.isFinish = false := by rwa [Token.isFinish, ← hkind]
  rw [Cursor.next_congr hsize hoffset hrest hkind hrf] at hnext
  refine ⟨hkind ▸ hr.next hrf hnext, ?_⟩
  have := hr.start_lt_offset hrf
  have := Reaches.offset_le_next hrf hnext
  omega

end Stands

end TypeAhead
