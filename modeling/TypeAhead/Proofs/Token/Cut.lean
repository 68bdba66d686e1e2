/-
  TypeAhead.Proofs.Token.Cut — A TEXT THAT IS CUT OFF.

  What is typed so far is a text up to the caret.  The tokens that end before the
  caret are the same as in the whole text: the kind of a token, its characters and
  its place are told by nothing that comes after it.

      token_of_cut       one token
      Cut.next           one step of two cursors
      Cut.skip           any number of steps
      token?_of_cut      the token of any number
-/
import TypeAhead.Proofs.Token.Ahead

namespace TypeAhead

open Text

/-! ## §1. One token. -/

namespace Scan

variable {previous : Option TokenKind} {start : Nat} {cs rest more : List Char} {t : Token}

/-- A token ends where what is left starts. -/
theorem stop_of_token (h : token previous start cs = .ok (t, rest)) :
    t.stop + byteSize rest = start + byteSize cs := by
  cases token_splits h with
  | finish hkind hblank htext hstart hrest =>
    rw [Token.stop, htext, hstart, hrest]
    show start + byteSize cs + 0 + 0 = _
    omega
  | lexeme blanks lexeme hkind hcs hne htext hstart =>
    rw [Token.stop, htext, hstart, hcs, utf8ByteSize_ofList, byteSize_append, byteSize_append]
    omega

/-- **A token that ends before the cut is read there as well.** -/
theorem token_of_cut (h : token previous start (cs ++ more) = .ok (t, rest))
    (hstop : t.stop ≤ start + byteSize cs) :
    ∃ rest', rest = rest' ++ more ∧ token previous start cs = .ok (t, rest') := by
  have hrest := stop_of_token h
  rw [byteSize_append] at hrest
  rcases token_cases h with ⟨-, ht, hend⟩ | ⟨c, tail, kind, lexeme, hdrop, hlexeme, ht, hleft⟩
  · -- Nothing was cut off.
    have hmore : more = [] := by
      by_cases hne : more = []
      · exact hne
      · have := byteSize_pos hne
        rw [hend, byteSize_nil] at hrest
        omega
    rw [hmore, List.append_nil] at h
    refine ⟨[], ?_, ?_⟩
    · rw [hend, hmore, List.append_nil]
    · rw [h, hend]
  -- A token that ends before the cut is all there.
  · obtain ⟨⟨hpart, hne⟩, -⟩ := lexeme_isPrefix hlexeme
    have hcs : (cs ++ more).takeWhile isBlank ++ (c :: tail) = cs ++ more := by
      rw [← hdrop]
      exact List.takeWhile_append_dropWhile
    have hblanks := @mem_takeWhile (cs ++ more) isBlank
    generalize (cs ++ more).takeWhile isBlank = blanks at hcs hblanks hlexeme ht
    -- The blanks before the token and its characters are before the cut.
    have hfits : blanks ++ lexeme <+: cs := by
      have hread : blanks ++ lexeme <+: cs ++ more := by
        rw [← hcs]
        exact (List.prefix_append_right_inj blanks).2 hpart
      apply isPrefix_of_byteSize_le hread
      · exact List.prefix_append cs more
      · rw [ht, Token.stop, utf8ByteSize_ofList] at hstop
        rw [byteSize_append]
        have : start + byteSize blanks + byteSize lexeme ≤ start + byteSize cs := hstop
        omega
    obtain ⟨rest', rfl⟩ := hfits
    have htail : c :: tail = lexeme ++ (rest' ++ more) := by
      rw [List.append_assoc, List.append_assoc] at hcs
      exact List.append_cancel_left hcs
    refine ⟨rest', ?_, ?_⟩
    · rw [hleft, htail, List.drop_left]
    · obtain ⟨d, lexeme, rfl⟩ := List.exists_cons_of_ne_nil hne
      have hd : c = d := (List.cons.inj htail).1
      have htail' : tail = lexeme ++ rest' ++ more := by
        rw [List.append_assoc]
        exact (List.cons.inj htail).2
      subst hd
      -- What a token is read from is the text up to its end, if that is not the whole text.
      have hfront : Scan.lexeme previous (start + byteSize blanks) c (lexeme ++ rest') =
          .ok (kind, c :: lexeme) := by
        apply lexeme_of_isPrefix _ hlexeme
        · exact List.prefix_append (c :: lexeme) rest'
        · exact ⟨more, htail'.symm⟩
      have hread := token_of_lexeme (isBlank_of_dropWhile hdrop) hfront
      rw [← List.cons_append, List.drop_left, ← ht, ← token_blank hblanks,
        ← List.append_assoc] at hread
      exact hread

end Scan

/-! ## §2. Cursors. -/

/-- `Cut more c d`: the cursors stand on the same token, the one of a text and the other of the text
without `more` at its end. -/
structure Cut (more : List Char) (c d : Cursor) : Prop where
  current_eq : c.current = d.current
  stop_eq : c.offset = c.current.stop
  offset_eq : c.offset = d.offset
  rest_eq : c.rest = d.rest ++ more
  size_eq : d.size = d.offset + byteSize d.rest

variable {more cs : List Char} {c d e : Cursor}

/-- A token that ends before the cut, read with and without what was cut off. -/
theorem cut_of_read {size offset : Nat} {previous : Option TokenKind}
    (h : Cursor.read size previous offset (cs ++ more) = .ok c)
    (hstop : c.current.stop ≤ offset + byteSize cs) :
    ∃ d, Cursor.read (offset + byteSize cs) previous offset cs = .ok d ∧ Cut more c d := by
  obtain ⟨-, hoffset, htoken⟩ := Cursor.read_eq_ok h
  obtain ⟨rest, hrest, hcut⟩ := Scan.token_of_cut htoken hstop
  refine ⟨⟨offset + byteSize cs, c.current.stop, rest, c.current⟩, ?_, ?_⟩
  · rw [Cursor.read, hcut]
  · exact ⟨rfl, hoffset, hoffset, hrest, (Scan.stop_of_token hcut).symm⟩

/-- **One step of both cursors**, if the next token ends before the cut. -/
theorem Cut.next (h : Cut more c d) (hnext : c.next = .ok e) (hstop : e.current.stop ≤ d.size) :
    ∃ e', d.next = .ok e' ∧ Cut more e e' := by
  by_cases hc : c.current.isFinish = true
  · have hd : d.current.isFinish = true := h.current_eq ▸ hc
    rw [Cursor.next, if_pos hc] at hnext
    cases hnext
    refine ⟨d, ?_, h⟩
    rw [Cursor.next, if_pos hd]
  · have hc : c.current.isFinish = false := by simpa using hc
    have hd : d.current.isFinish = false := h.current_eq ▸ hc
    rw [Cursor.next_of_not_finish hc, h.offset_eq, h.rest_eq, h.current_eq] at hnext
    rw [h.size_eq] at hstop
    rw [Cursor.next_of_not_finish hd, h.size_eq]
    exact cut_of_read hnext hstop

namespace Cursor

theorem size_of_next (h : c.next = .ok d) : d.size = c.size := by
  unfold next at h
  split at h
  · cases h
    rfl
  · exact (read_eq_ok h).1

/-- The next token is read from where the current one ends. -/
theorem offset_of_next (hc : c.offset = c.current.stop) (h : c.next = .ok d) :
    d.offset = d.current.stop := by
  unfold next at h
  split at h
  · cases h
    exact hc
  · exact (read_eq_ok h).2.1

/-- The next token ends no sooner. -/
theorem stop_le_of_next (hc : c.offset = c.current.stop) (h : c.next = .ok d) :
    c.current.stop ≤ d.current.stop := by
  by_cases hfinish : c.current.isFinish = true
  · rw [next, if_pos hfinish] at h
    cases h
    exact Nat.le_refl _
  · have hle := Reaches.offset_le_next (by simpa using hfinish) h
    have : d.current.start ≤ d.current.stop := Nat.le_add_right _ _
    omega

/-- The cursor `k` tokens further on. -/
def skip : Nat → Cursor → Except Fault Cursor
  | 0, c => .ok c
  | k + 1, c =>
    match c.next with
    | .error fault => .error fault
    | .ok d => skip k d

theorem stop_le_of_skip {k : Nat} (hc : c.offset = c.current.stop) (h : skip k c = .ok e) :
    c.current.stop ≤ e.current.stop := by
  induction k generalizing c with
  | zero =>
    cases h
    exact Nat.le_refl _
  | succ k ih =>
    rw [skip] at h
    split at h
    · cases h
    · rename_i d hnext
      exact Nat.le_trans (stop_le_of_next hc hnext) (ih (offset_of_next hc hnext) h)

end Cursor

/-- **Any number of steps of both cursors**, if the token they lead to ends before the cut. -/
theorem Cut.skip {k : Nat} (h : Cut more c d) (hskip : c.skip k = .ok e)
    (hstop : e.current.stop ≤ d.size) : ∃ e', d.skip k = .ok e' ∧ Cut more e e' := by
  induction k generalizing c d with
  | zero =>
    cases hskip
    exact ⟨d, rfl, h⟩
  | succ k ih =>
    rw [Cursor.skip] at hskip
    split at hskip
    · cases hskip
    · rename_i c' hnext
      -- The tokens on the way end before the cut as well.
      have hle := Cursor.stop_le_of_skip (Cursor.offset_of_next h.stop_eq hnext) hskip
      obtain ⟨d', hnext', hcut⟩ := h.next hnext (Nat.le_trans hle hstop)
      rw [Cursor.skip, hnext']
      apply ih hcut hskip
      rw [Cursor.size_of_next hnext']
      exact hstop

/-! ## §3. The tokens of a text that is cut off. -/

/-- The token number `k` of a text, the first one being number 0; past the end the end repeats. -/
def token? (text : List Char) (k : Nat) : Except Fault Token :=
  match Cursor.open? text with
  | .error fault => .error fault
  | .ok c => (c.skip k).map Cursor.current

/-- **What is cut off does not change the tokens before the cut**: a token that ends no later is the
token of its number in what is left. -/
theorem token?_of_cut {text before : List Char} {caret k : Nat} {t : Token}
    (hcut : takeBytes? caret text = some before) (ht : token? text k = .ok t)
    (hstop : t.stop ≤ caret) : token? before k = .ok t := by
  obtain ⟨more, rfl, rfl⟩ := takeBytes?_eq_some hcut
  unfold token? at ht
  split at ht
  · cases ht
  · rename_i c hopen
    cases hskip : c.skip k with
    | error fault =>
      rw [hskip] at ht
      cases ht
    | ok e =>
      rw [hskip] at ht
      cases ht
      -- The tokens before it end before it does, so they are not cut either.
      have hle := Cursor.stop_le_of_skip (Cursor.read_eq_ok hopen).2.1 hskip
      obtain ⟨d, hopen', hcut⟩ := cut_of_read hopen (by omega)
      rw [Nat.zero_add] at hopen'
      obtain ⟨e', hskip', hcut'⟩ := hcut.skip hskip (by
        rw [(Cursor.read_eq_ok hopen').1]
        exact hstop)
      have hopen' : Cursor.open? before = .ok d := hopen'
      rw [token?, hopen', hcut'.current_eq]
      show (d.skip k).map Cursor.current = _
      rw [hskip']
      rfl

/-- The coalescing operator before a literal that the caret stands in. -/
theorem token?_of_cut_coalesce :
    takeBytes? 7 "a.b ?? 'x.y'".toList = some "a.b ?? ".toList ∧
      token? "a.b ?? 'x.y'".toList 3 = .ok ⟨.coalesce, "??", 4⟩ ∧
      token? "a.b ?? ".toList 3 = .ok ⟨.coalesce, "??", 4⟩ :=
  have hcut : takeBytes? 7 "a.b ?? 'x.y'".toList = some "a.b ?? ".toList := rfl
  have htoken : token? "a.b ?? 'x.y'".toList 3 = .ok ⟨.coalesce, "??", 4⟩ := rfl
  ⟨hcut, htoken, token?_of_cut hcut htoken (by decide)⟩

end TypeAhead
