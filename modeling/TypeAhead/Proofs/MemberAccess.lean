/-
  TypeAhead.Proofs.MemberAccess — A MEMBER AFTER A TEXT IS ONE MORE PART OF ITS FRAGMENT.

  Where a text has been walked to its end with an operand open, a dot and a name
  after it belong to that operand, whatever the text ends with: a call, an element,
  a literal, a creation or the body of a projection.  After a dot every word is a
  name, operators and keywords included.  So the walk of the longer text is complete
  too, and the fragment starts where it did.

  While a text is being typed its walk rarely is complete, but most often it fails
  where the text is over.  Then it fails with the member as well, and the operand
  that is innermost is the same one.

      Precedes           the tokens of a text stay as they are before a member
      echoes_member      the walks of a text without a member and with one
      member_access      the answer for a text with a member after it, if the walk is complete
      locate_member      the same for any text that can be read to its end
-/
import TypeAhead.Proofs.Fragment.Prolonged
import TypeAhead.Proofs.Typing.Name

namespace TypeAhead

open Walker Fragment

/-! ## §1. Words after a dot. -/

/-- A word of letters, digits and low lines of ASCII, which starts with no digit and is not too long. -/
structure IsIdentifier (word : String) : Prop where
  chars : ∃ first rest, word.toList = first :: rest ∧ (first.isAlpha = true ∨ first = '_') ∧
    ∀ c ∈ rest, c.isAlphanum = true ∨ c = '_'
  length : word.length ≤ Limits.identifierLength

namespace Scan

variable {c : Char} {word : String}

/-- What may come first in an identifier starts a word and nothing else. -/
theorem startsWord_of_first (h : c.isAlpha = true ∨ c = '_') :
    startsWord c = true ∧ Text.isBlank c = false ∧ (c ≠ '"' ∧ c ≠ '\'') ∧
      ∀ next, symbol? c next = none := by
  have hword : Text.isWordChar c = true := by
    rcases h with h | rfl
    · simp [Text.isWordChar, Text.isAlphanumeric, Text.isAlphabetic, h]
    · rfl
  -- A letter or an underscore is none of the characters that mean something else.
  have hne : ∀ {e : Char}, (e.isAlpha || e == '_') = false → c ≠ e := by
    rintro e he rfl
    simp only [Bool.or_eq_false_iff, beq_eq_false_iff_ne] at he
    rcases h with h | h
    · exact absurd h (by simp [he.1])
    · exact he.2 h
  refine ⟨?_, ?_, ⟨hne (by decide), hne (by decide)⟩, fun next => ?_⟩
  · rcases h with h | rfl
    · simp [startsWord, Text.isAlphabetic, h]
    · rfl
  · refine Bool.eq_false_iff.2 fun hblank => ?_
    rw [isWordChar_of_separates (separates_of_blank hblank)] at hword
    cases hword
  · unfold symbol?
    split <;> first | rfl | exact absurd rfl (hne (by decide))

end Scan

/-- **After a dot a word is a name**, whatever it means elsewhere. -/
theorem IsIdentifier.readAfterDot {word : String} (h : IsIdentifier word) : ReadAfterDot word := by
  obtain ⟨⟨first, rest, hword, hfirst, hrest⟩, hlength⟩ := h
  obtain ⟨hstarts, hblank, hquote, hsymbol⟩ := Scan.startsWord_of_first hfirst
  have hchars : ∀ c ∈ rest, Text.isWordChar c = true := by
    intro c hc
    rcases hrest c hc with h | rfl
    · simp only [Char.isAlphanum, Bool.or_eq_true] at h
      rcases h with h | h <;>
        simp [Text.isWordChar, Text.isAlphanumeric, Text.isAlphabetic, Text.isNumeric, h]
    · rfl
  have htake : rest.takeWhile Text.isWordChar = rest := List.takeWhile_eq_self_iff.2 hchars
  have hread : Scan.word (some .dot) 0 first rest = .ok (.identifier, first :: rest) := by
    refine Scan.word_eq_ok_iff.2 ⟨rfl, by rw [htake], ?_⟩
    rwa [← hword, String.length_toList]
  have hlexeme : Scan.lexeme (some .dot) 0 first rest = .ok (.identifier, first :: rest) :=
    Scan.lexeme_eq_iff.2 (.word (hsymbol _) (not_or.2 hquote) hstarts hread)
  rw [ReadAfterDot, hword, Scan.token_of_lexeme (by simpa using hblank) hlexeme]
  simp [← hword]

/-- A dot with a word after it is a member, wherever it stands. -/
theorem lastMember_of_read {word : String} (h : ReadAfterDot word) (size : Nat)
    (previous : Option TokenKind) (start : Nat) :
    ∃ d, Cursor.read size previous start ('.' :: word.toList) = .ok d ∧ LastMember d := by
  have hdot : Scan.token previous start ('.' :: word.toList) =
      .ok (⟨.dot, ".", start⟩, word.toList) := rfl
  refine ⟨_, read_eq_of_token hdot, rfl, rfl, ?_⟩
  exact ⟨_, _, h.read _ _, rfl, rfl, rfl⟩

namespace Fragment

variable {text more : List Char} {T word : String} {parsing : Parsing} {starts : List Nat} {c d : Cursor}

/-! ## §2. A text before a member. -/

/-- The tokens of `text` are the same before `more`, which is a member wherever it is read. -/
structure Precedes (text more : List Char) : Prop where
  ne_nil : more ≠ []
  same : ∀ {past c previous start cs}, Reaches text past c → c.current.isFinish = false →
    Scan.token previous start cs = .ok (c.current, c.rest) →
    Scan.token previous start (cs ++ more) = .ok (c.current, c.rest ++ more)
  member : ∀ size previous start, ∃ d, Cursor.read size previous start more = .ok d ∧ LastMember d

/-- The cursor stands on the first token of `more`, which is all that is left. -/
def OnFirst (more : List Char) (d : Cursor) : Prop :=
  ∃ previous start, Cursor.read d.size previous start more = .ok d

theorem Precedes.lastMember (h : Precedes text more) (hd : OnFirst more d) : LastMember d := by
  obtain ⟨previous, start, hread⟩ := hd
  obtain ⟨d', hread', hmember⟩ := h.member d.size previous start
  cases hread.symm.trans hread'
  exact hmember

/-- Blanks before the member are passed over. -/
theorem Precedes.read_blank (h : Precedes text more) {blanks : List Char}
    (hblank : ∀ e ∈ blanks, Text.isBlank e = true) (size : Nat) (previous : Option TokenKind) (start : Nat) :
    ∃ d, Cursor.read size previous start (blanks ++ more) = .ok d ∧ d.size = size ∧ OnFirst more d := by
  obtain ⟨d, hd, -⟩ := h.member size previous (start + Text.byteSize blanks)
  have hsize : d.size = size := (Cursor.read_eq_ok hd).1
  refine ⟨d, ?_, hsize, previous, start + Text.byteSize blanks, by rw [hsize]; exact hd⟩
  rw [Cursor.read, Scan.token_blank hblank]
  exact hd

/-- Going on leads to the same token, or to the member. -/
theorem Precedes.next (h : Precedes text more) (halike : Alike text more 0 c d) {c' : Cursor}
    (hnext : c.next = .ok c') : ∃ d', d.next = .ok d' ∧ c'.size = c.size ∧ d'.size = d.size ∧
      (Alike text more 0 c' d' ∨ AtEnd c' ∧ OnFirst more d') := by
  have hc : c.current.isFinish = false := halike.finish h.ne_nil
  have hd : d.current.isFinish = false := by
    rw [Token.isFinish, halike.kind_eq]
    exact hc
  obtain ⟨past, hstands⟩ := halike.stands
  have hreached := (hstands.next hc hnext).1
  have hread := hnext
  rw [Cursor.next_of_not_finish hc] at hread
  obtain ⟨hsize, hoffset, htoken⟩ := Cursor.read_eq_ok hread
  rw [Cursor.next_of_not_finish hd, halike.kind_eq, halike.offset_eq, halike.rest_eq]
  -- The next token is the same one, unless the text is over and the longer one goes on.
  cases hc' : c'.current.isFinish with
  | false =>
    refine ⟨_, read_eq_of_token (h.same hreached hc' htoken), hsize, rfl, .inl ?_⟩
    exact ⟨⟨_, .of_reaches hreached⟩, rfl, rfl, rfl, hoffset.symm, rfl, fun _ => hc'⟩
  | true =>
    -- What is left of the text is blank.
    obtain ⟨hblank, -⟩ := offset_add_rest hstands hc hnext hc'
    obtain ⟨d', hd', hsize', hfirst⟩ := h.read_blank hblank d.size (some c.current.kind) c.offset
    exact ⟨d', hd', hsize, hsize', .inr ⟨hc', hfirst⟩⟩

/-- A member has a dot and a name, each of a byte or more. -/
theorem Precedes.two_le (h : Precedes text more) : 2 ≤ Text.byteSize more := by
  obtain ⟨d, hopen, hmember⟩ := h.member (Text.byteSize more) none 0
  obtain ⟨e, f, he, hname, hf, hover⟩ := hmember.name
  have hd : Reaches more [] d := .first hopen
  have he' := hd.next (by rw [Token.isFinish, hmember.dot]; rfl) he
  have hf' := he'.next (by rw [Token.isFinish, hname]; rfl) hf
  have hend := hf'.start_of_finish hover
  have hdot := hd.start_lt he' (Nat.zero_lt_one)
  have hword := he'.start_lt hf' (Nat.lt_succ_self _)
  omega

/-- The text opens with the same token before the member. -/
theorem Precedes.open_longer (h : Precedes text more) (hopen : Cursor.open? text = .ok c)
    (hc : c.current.isFinish = false) : ∃ d, Cursor.open? (text ++ more) = .ok d ∧ Alike text more 0 c d ∧
      c.size + 2 ≤ d.size ∧ d.current = c.current := by
  obtain ⟨hsize, hoffset, htoken⟩ := Cursor.read_eq_ok hopen
  have hreached : Reaches text [] c := .first hopen
  have hlonger : c.size + 2 ≤ Text.byteSize (text ++ more) := by
    have := h.two_le
    rw [hsize, Text.byteSize_append]
    omega
  refine ⟨_, read_eq_of_token (h.same hreached hc htoken), ?_, hlonger, rfl⟩
  exact ⟨⟨_, .of_reaches hreached⟩, rfl, rfl, rfl, hoffset.symm, rfl, fun _ => hc⟩

/-- A text of blanks opens with the member. -/
theorem Precedes.open_over (h : Precedes text more) (hopen : Cursor.open? text = .ok c) (hc : AtEnd c) :
    ∃ d, Cursor.open? (text ++ more) = .ok d ∧ LastMember d ∧ c.size + 2 ≤ d.size := by
  obtain ⟨hsize, -, htoken⟩ := Cursor.read_eq_ok hopen
  have hblank : ∀ e ∈ text, Text.isBlank e = true := by
    cases Scan.token_splits htoken with
    | finish _ hblank => exact hblank
    | lexeme _ _ hne => exact absurd (Token.isFinish_iff.1 hc) hne
  obtain ⟨d, hd, hsize', hfirst⟩ := h.read_blank hblank (Text.byteSize (text ++ more)) none 0
  refine ⟨d, hd, h.lastMember hfirst, ?_⟩
  have := h.two_le
  rw [hsize, hsize', Text.byteSize_append]
  omega

/-- The text can be read to its end. -/
def Readable (text : List Char) : Prop := ∃ past c, Reaches text past c ∧ AtEnd c

theorem Readable.exists_open (h : Readable text) : ∃ c, Cursor.open? text = .ok c := by
  obtain ⟨past, e, he, -⟩ := h
  induction he with
  | first hopen => exact ⟨_, hopen⟩
  | next _ _ _ ih => exact ih

theorem Readable.next (h : Readable text) {past : List TokenKind} (hc : Stands text past c)
    (hfinish : c.current.isFinish = false) : ∃ c', c.next = .ok c' := by
  obtain ⟨pastEnd, e, he, hend⟩ := h
  obtain ⟨r, hr, hsize, hoffset, hrest, hkind, -⟩ := hc
  have hr' : r.current.isFinish = false := by rwa [Token.isFinish, ← hkind]
  rw [Cursor.next_congr hsize hoffset hrest hkind hr']
  -- The end starts last, so more tokens are read on the way to it than up to here.
  have hfewer : past.length < pastEnd.length := by
    have hlast := he.start_of_finish hend
    rcases Nat.lt_trichotomy past.length pastEnd.length with hlt | heq | hgt
    · exact hlt
    · obtain ⟨-, rfl⟩ := hr.eq_of_length he heq
      cases hr'.symm.trans hend
    · exact absurd (he.start_lt hr hgt) (by have := hr.start_le; omega)
  clear hend
  -- On the way to the end, the cursor is one of those that are passed.
  induction he with
  | first => cases hfewer
  | @next pastEnd b d hb _ hnext ih =>
    rcases Nat.lt_succ_iff_lt_or_eq.1 hfewer with hlt | heq
    · exact ih hlt
    · obtain ⟨-, rfl⟩ := hr.eq_of_length hb heq
      exact ⟨d, hnext⟩

theorem Completes.readable (h : Completes parsing T starts) : Readable T.toList := by
  obtain ⟨c, w, hopen, hwalk, hfinish, -⟩ := h
  obtain ⟨past, hreached, -⟩ := ((sound_reader parsing hopen).ok hwalk).reached
  exact ⟨past, _, hreached, hfinish⟩

/-- A text and the same text with a member after it. -/
def beforeMember (text more : List Char) (h : Precedes text more) : Pairing where
  text := text
  alike c d := Alike text more 0 c d ∧ c.size + 2 ≤ d.size
  cross c d := AtEnd c ∧ LastMember d
  place a b := a = b
  base := []
  ends := True
  stands h := h.1.stands
  kind_eq h := h.1.kind_eq
  text_eq h := h.1.text_eq
  start_eq h := h.1.start_eq.symm
  next_ok halike hnext := by
    obtain ⟨d', hd', hsize, hsize', hcase⟩ := h.next halike.1 hnext
    exact ⟨d', hd', hcase.imp (fun halike' => ⟨halike', by rw [hsize, hsize']; exact halike.2⟩)
      fun hover => ⟨hover.1, h.lastMember hover.2⟩⟩
  next_error _ _ := .inl trivial
  replace halike hkind hstart hkind' htext hplace :=
    have ⟨past, hstands⟩ := halike.1.stands
    ⟨⟨⟨past, hstands.replace hkind hstart⟩, hkind', htext, hplace.symm, halike.1.offset_eq,
      halike.1.rest_eq, fun hm => by simpa [Token.isFinish, hkind] using halike.1.finish hm⟩, halike.2⟩
  finish_of_cross h := h.1
  ends_of_cross _ := trivial
  question_of_cross h := by simp [h.2.dot]
  finish_of_ends _ halike := halike.1.finish h.ne_nil

theorem dotted_beforeMember (h : Precedes text more) (hread : Readable text) :
    (beforeMember text more h).Dotted := by
  refine ⟨trivial, fun hcross => hcross.2, fun halike => halike.2, fun halike => ?_⟩
  obtain ⟨past, hstands⟩ := halike.1.stands
  exact hread.next hstands (halike.1.finish h.ne_nil)

/-- The same operands are open. -/
theorem held_eq_of_stacked (h : Precedes text more) {held held' : List Nat}
    (hstacked : (beforeMember text more h).Stacked held held') : held' = held := by
  obtain ⟨top, rfl, hheld⟩ := hstacked
  have hheld : held = top := by simpa [beforeMember] using hheld
  rw [hheld]
  exact List.append_nil top

/-- **What the walk of a text does is repeated before a member.** -/
theorem echoes_member (parsing : Parsing) (hmore : Precedes text more) (hread : Readable text)
    (hopen : Cursor.open? text = .ok c) :
    ∃ d, Cursor.open? (text ++ more) = .ok d ∧ (beforeMember text more hmore).Echoes
      (Through text EndOrMember) (walk parsing c) (walk parsing d) := by
  have hprolongs : ∀ {d : Cursor}, c.size + 2 ≤ d.size →
      Rule.Prolongs (beforeMember text more hmore)
        (unroll (Rule.body parsing) (Rule.astray text) (Rule.budget c.size))
        (Rule.run parsing (Rule.budget d.size)) := by
    intro d hlonger
    refine Rule.prolongs_unroll (dotted_beforeMember hmore hread) parsing ?_
    unfold Rule.budget
    omega
  -- The first walk does not use up its budget, so it does not matter what the calls beyond that are.
  rw [← unroll_eq_walk parsing (Rule.astray text) hopen (Nat.le_refl _)]
  cases hc : c.current.isFinish with
  -- Where the text has a token both walks start on it.
  | false =>
    obtain ⟨d, hopen', halike, hlonger, -⟩ := hmore.open_longer hopen hc
    have hstart : (beforeMember text more hmore).Aligned ⟨c, 0, []⟩ ⟨d, 0, []⟩ :=
      ⟨⟨⟨halike, hlonger⟩, [], rfl, .nil⟩, rfl⟩
    exact ⟨d, hopen', (hprolongs hlonger).enter .conditional (by decide) hstart⟩
  -- A text of blanks has no operand, and neither has the member by itself.
  | true =>
    obtain ⟨d, hopen', hmember, hlonger⟩ := hmore.open_over hopen hc
    have hstart : (beforeMember text more hmore).Ended (fun _ => EndOrMember) ⟨c, 0, []⟩ ⟨d, 0, []⟩ :=
      ⟨hc, ⟨[], .first hopen⟩, .inr hmember, ⟨[], rfl, .nil⟩, rfl⟩
    exact ⟨d, hopen', ((hprolongs hlonger).opens rfl hstart).echoes⟩

/-- **A complete walk is repeated before a member**, with the same operands open. -/
theorem Completes.before_member (h : Completes parsing T starts) (hmore : Precedes T.toList more) :
    ∃ c d v, Cursor.open? (T.toList ++ more) = .ok d ∧ walk parsing d = .ok () v ∧ v.held = starts ∧
      EndOrMember v.cursor ∧ AtEnd c ∧ AsksNothing T.toList c := by
  have hread := h.readable
  obtain ⟨c, w, hopen, hwalk, hfinish, rfl⟩ := h
  obtain ⟨d, hopen', hechoes⟩ := echoes_member parsing hmore hread hopen
  obtain ⟨v, hrun, haligned | hended⟩ := hechoes.succeeds () w hwalk
  · cases hfinish.symm.trans (haligned.isFinish (dotted_beforeMember hmore hread))
  · exact ⟨w.cursor, d, v, hopen', hrun, held_eq_of_stacked hmore hended.stacked, hended.beyond.2,
      hended.finished, hended.beyond.1⟩

/-! ## §3. Members with and without a blank before them. -/

/-- A blank parts the member from the text. -/
theorem precedes_blank (hword : ReadAfterDot word) (text : List Char) :
    Precedes text (' ' :: '.' :: word.toList) := by
  refine ⟨nofun, fun _ hc htoken => ?_, fun size previous start => ?_⟩
  · exact Scan.token_append (by decide) _ htoken (by simpa [Token.isFinish] using hc)
  · have hblank : ∀ e ∈ [' '], Text.isBlank e = true := List.all_eq_true.1 rfl
    obtain ⟨d, hd, hmember⟩ := lastMember_of_read hword size previous (start + Text.byteSize [' '])
    refine ⟨d, ?_, hmember⟩
    show Cursor.read size previous start ([' '] ++ '.' :: word.toList) = .ok d
    rw [Cursor.read, Scan.token_blank hblank]
    exact hd

/-- Without a blank, a dot changes no token but a question mark at the end of the text. -/
theorem precedes_dot (hword : ReadAfterDot word)
    (hlast : ∀ {past c}, Reaches text past c → c.current.kind = .question → c.rest ≠ []) :
    Precedes text ('.' :: word.toList) := by
  obtain ⟨first, rest, hchars, hdigit⟩ := hword.first
  refine ⟨nofun, fun {past c previous start cs} hreached hc htoken => ?_, lastMember_of_read hword⟩
  rw [hchars]
  exact Scan.token_append_dot hdigit rest htoken (by simpa [Token.isFinish] using hc) (hlast hreached)

/-- **No complete text ends in a question mark.** -/
theorem Completes.not_question (h : Completes parsing T starts) {past : List TokenKind}
    (hreached : Reaches T.toList past c) (hc : c.current.kind = .question) : c.rest ≠ [] := by
  intro hrest
  -- The question mark is the last token of the text.
  have hfinish : c.current.isFinish = false := by rw [Token.isFinish, hc]; rfl
  have hnext : c.next = .ok ⟨c.size, (Token.finish c.offset).stop, [], .finish c.offset⟩ := by
    rw [Cursor.next_of_not_finish hfinish, hrest]
    rfl
  have hend := hreached.next hfinish hnext
  rw [hc] at hend
  -- Before a blank and a member the text ends with the same token, which is no question mark.
  have hword : IsIdentifier "a" := ⟨⟨'a', [], rfl, .inl rfl, nofun⟩, by decide⟩
  obtain ⟨c', -, -, -, -, -, -, hover, kind, past', hreached', hkind⟩ :=
    h.before_member (precedes_blank hword.readAfterDot T.toList)
  have hstart := (hend.start_of_finish rfl).trans (hreached'.start_of_finish hover).symm
  cases (hend.unique hreached' hstart).1
  exact hkind rfl

/-- No word means a question mark. -/
theorem text_of_question {cs rest : List Char} {previous : Option TokenKind} {start : Nat} {t : Token}
    (h : Scan.token previous start cs = .ok (t, rest)) (ht : t.kind = .question) : t.text = "?" := by
  rcases Scan.token_cases h with ⟨-, rfl, -⟩ | ⟨first, tail, kind, lexeme, -, hlexeme, rfl, -⟩
  · cases ht
  · obtain rfl : kind = .question := ht
    exact Scan.text_of_lexeme hlexeme rfl (by decide)

/-- A text of which the last character is no question mark does not end in that token. -/
theorem rest_ne_nil_of_question (hlast : text.getLast? ≠ some '?') {past : List TokenKind}
    (hreached : Reaches text past c) (hc : c.current.kind = .question) : c.rest ≠ [] := by
  intro hrest
  have htext : c.current.text = "?" := by
    cases hreached with
    | first hopen => exact text_of_question (Cursor.read_eq_ok hopen).2.2 hc
    | next _ hfinish hnext =>
      rw [Cursor.next_of_not_finish hfinish] at hnext
      exact text_of_question (Cursor.read_eq_ok hnext).2.2 hc
  obtain ⟨-, -, read, lexeme, hdivides⟩ := hreached.split
  have hlexeme : lexeme = ['?'] := by
    rw [← String.toList_ofList (l := lexeme), ← hdivides.lexeme_eq, htext]
    rfl
  apply hlast
  rw [hdivides.text_eq, hrest, hlexeme, List.append_nil, List.getLast?_append]
  rfl

/-! ## §4. The answer. -/

/-- What is before a fragment is before it in a longer text as well. -/
theorem text_of_longer {r r' : Fragment} (more : String) (h : locate parsing T = .ok r)
    (h' : locate parsing (T ++ more) = .ok r') (hstart : r'.start = r.start) : r'.text = r.text ++ more := by
  obtain ⟨front, hfront, hsize⟩ := Text.dropBytes?_eq_some (answers_of_locate h).rest
  have hT : T = String.ofList front ++ r.text := by
    rw [← String.toList_inj, String.toList_append, String.toList_ofList]
    exact hfront
  rw [hT, String.append_assoc] at h'
  refine text_of_locate h' ?_
  rw [hstart, ← Text.byteSize_toList, String.toList_ofList, hsize]

/-- **A member after a text is one more part of its fragment.**  If the walk of a text is complete with
an operand open, it is complete with the same operands open after a dot and any word, and the fragment
is the same one with the dot and the word after it. -/
theorem member_access (parsing : Parsing) {T w : String} {starts : List Nat}
    (h : Completes parsing T starts) (hopen : starts ≠ []) (hw : IsIdentifier w) :
    Completes parsing (T ++ "." ++ w) starts ∧
      ∃ r, locate parsing T = .ok r ∧ r.stoppedBy = none ∧
        locate parsing (T ++ "." ++ w) = .ok ⟨r.start, r.text ++ "." ++ w, none⟩ := by
  have hlist : (T ++ "." ++ w).toList = T.toList ++ '.' :: w.toList := by simp
  obtain ⟨-, d, v, hd, hwalk, hheld, -, -, -⟩ :=
    h.before_member (precedes_dot hw.readAfterDot fun hreached => h.not_question hreached)
  have hover : v.cursor.current.isFinish = true := by
    cases hv : v.cursor.current.isFinish with
    | true => rfl
    | false =>
      -- Where the text is not over, nothing stays open.
      have hclosed := ((Rule.restores_run parsing _ .conditional _).ok hwalk).closed hv
      exact absurd (hheld.symm.trans hclosed) hopen
  have hcompletes : Completes parsing (T ++ "." ++ w) starts := ⟨d, v, hlist ▸ hd, hwalk, hover, hheld⟩
  refine ⟨hcompletes, _, h.locate, rfl, ?_⟩
  -- The fragment of the longer text starts at the same operand and goes on to the end.
  have hlonger := hcompletes.locate
  rw [String.append_assoc] at hlonger
  have htext := text_of_longer ("." ++ w) h.locate hlonger rfl
  rw [← String.append_assoc, ← String.append_assoc] at htext
  rw [hcompletes.locate, ← htext, String.append_assoc]
  rfl

/-- Where there is no token, the text is blank, and nothing is left of it where an operand is opened. -/
theorem text_of_opensNothing {stoppedBy : Option Fault} {w : Walk (List Nat)} (h : OpensNothing T.toList w) :
    (ofOpen T.toList w.held stoppedBy).text = "" := by
  obtain ⟨starts, hheld⟩ := List.head?_eq_some_iff.1 h
  have hdrop : Text.dropBytes? (Text.byteSize T.toList) (T.toList ++ []) = some [] := Text.dropBytes?_append _ _
  rw [List.append_nil] at hdrop
  rw [hheld]
  show String.ofList ((Text.dropBytes? (Text.byteSize T.toList) T.toList).getD []) = ""
  rw [hdrop]
  rfl

/-- **A member after a text is one more part of its fragment, however the walk of the text ends.**  A text
that can be read to its end, and has a fragment that is not empty, has the same one with the dot and the word
after it once they are there.  This is so where the walk is nested too deep as well: both walks are then. -/
theorem locate_member {r : Fragment} (hread : Readable T.toList) (hlast : T.toList.getLast? ≠ some '?')
    (hword : ReadAfterDot word) (h : locate parsing T = .ok r) (hr : r.text ≠ "") :
    ∃ stoppedBy, locate parsing (T ++ ("." ++ word)) = .ok ⟨r.start, r.text ++ ("." ++ word), stoppedBy⟩ := by
  have hlist : (T ++ ("." ++ word)).toList = T.toList ++ '.' :: word.toList := by simp
  have hmore : Precedes T.toList ('.' :: word.toList) := precedes_dot hword (rest_ne_nil_of_question hlast)
  -- It is enough that the fragment starts where it did.
  have hsame : ∀ stoppedBy starts, locate parsing (T ++ ("." ++ word)) =
      .ok (ofOpen (T ++ ("." ++ word)).toList starts stoppedBy) → starts.headD 0 = r.start →
      ∃ stoppedBy, locate parsing (T ++ ("." ++ word)) = .ok ⟨r.start, r.text ++ ("." ++ word), stoppedBy⟩ := by
    intro stoppedBy starts hlonger hstart
    refine ⟨stoppedBy, ?_⟩
    rw [hlonger, ← text_of_longer ("." ++ word) h hlonger hstart, ← hstart]
    rfl
  obtain ⟨c, hopen⟩ := hread.exists_open
  obtain ⟨d, hopen', hechoes⟩ := echoes_member parsing hmore hread hopen
  rw [← hlist] at hopen'
  cases hwalk : walk parsing c with
  | ok _ w =>
    cases h.symm.trans (locate_of_ok hopen hwalk)
    obtain ⟨v, hrun, hcase⟩ := hechoes.succeeds () w hwalk
    have hstacked : (beforeMember T.toList ('.' :: word.toList) hmore).Stacked w.held v.held :=
      hcase.elim (fun haligned => haligned.stacked) fun hended => hended.stacked
    refine hsame _ _ (locate_of_ok hopen' hrun) ?_
    rw [held_eq_of_stacked hmore hstacked]
    rfl
  | error failure w =>
    obtain ⟨fault, rfl, rfl⟩ := eq_of_locate_of_error h hopen hwalk
    rcases hechoes.fails _ w hwalk with hnothing | ⟨failure', v, hrun, hfault, hstacked⟩
    -- A fragment that is not empty starts before the end of the text.
    · exact absurd (text_of_opensNothing hnothing) hr
    · obtain ⟨fault', rfl⟩ : ∃ fault', failure' = .fault fault' := by
        cases failure' <;> first | exact ⟨_, rfl⟩ | cases hfault
      refine hsame _ _ (locate_of_fault hopen' hrun) ?_
      rw [held_eq_of_stacked hmore hstacked]
      rfl

/-- A call with a keyword after it. -/
theorem member_access_of_call :
    Completes {} "f(1)" [0] ∧ ([0] : List Nat) ≠ [] ∧ IsIdentifier "or" ∧
      Completes {} ("f(1)" ++ "." ++ "or") [0] ∧ ∃ r, locate {} "f(1)" = .ok r ∧ r.stoppedBy = none ∧
        locate {} ("f(1)" ++ "." ++ "or") = .ok ⟨r.start, r.text ++ "." ++ "or", none⟩ := by
  have hcall : Completes {} "f(1)" [0] := ⟨_, _, rfl, rfl, rfl, rfl⟩
  have hor : IsIdentifier "or" := ⟨⟨'o', ['r'], rfl, .inl rfl, by simp⟩, by decide⟩
  exact ⟨hcall, nofun, hor, member_access {} hcall nofun hor⟩

end Fragment

end TypeAhead
