/-
  TypeAhead.Proofs.Fragment.Within — A TEXT INSIDE A LONGER ONE.

  What stands before a text moves its tokens, and what comes after it changes none
  of them, if it starts with a character that goes on with no token.  So a text
  and a longer one that contains it are paired, from the first token of the text
  up to its end; past that the longer text goes on with what comes after.

      within            the pairing of a text with a longer one
      open_within       both start with the same token
-/
import TypeAhead.Proofs.Fragment.Lockstep
import TypeAhead.Proofs.Token.Extension

namespace TypeAhead.Fragment

/-! ## §1. The same token in two texts. -/

/-- What may come after a text: nothing, or a token that does not touch the last one of the text.
No question mark comes first, as one is looked for after a literal. -/
structure Follows (more : List Char) : Prop where
  separates : ∀ {e rest}, more = e :: rest → Scan.separates e = true
  reads : more ≠ [] → ∀ size previous start, ∃ d, Cursor.read size previous start more = .ok d ∧
    d.current.kind ≠ .question

theorem follows_nil : Follows [] := ⟨fun h => absurd h nofun, fun h => absurd rfl h⟩

/-- `d` stands on the token of a longer text on which `c` stands in `text`; it is `shift` bytes
further on, and `more` comes after the text. -/
structure Alike (text more : List Char) (shift : Nat) (c d : Cursor) : Prop where
  stands : ∃ past, Stands text past c
  kind_eq : d.current.kind = c.current.kind
  text_eq : d.current.text = c.current.text
  start_eq : d.current.start = c.current.start + shift
  offset_eq : d.offset = c.offset + shift
  rest_eq : d.rest = c.rest ++ more
  finish : more ≠ [] → c.current.isFinish = false

/-- `d` stands on the first token after `text`. -/
def AtEdge (text more : List Char) (shift : Nat) (d : Cursor) : Prop :=
  ∃ size previous, Cursor.read size previous (Text.byteSize text + shift) more = .ok d

variable {text more : List Char} {shift : Nat} {c d : Cursor}

/-- The text is read to its end from any of its tokens. -/
theorem offset_add_rest {past : List TokenKind} (h : Stands text past c)
    (hc : c.current.isFinish = false) {c' : Cursor} (hnext : c.next = .ok c')
    (hfinish : c'.current.isFinish = true) :
    (∀ e ∈ c.rest, Text.isBlank e = true) ∧ c.offset + Text.byteSize c.rest = Text.byteSize text := by
  have hreached := (h.next hc hnext).1
  have hend := hreached.start_of_finish hfinish
  have hkind : c'.current.kind = .finish := Token.isFinish_iff.1 hfinish
  rw [Cursor.next_of_not_finish hc] at hnext
  obtain ⟨-, -, htoken⟩ := Cursor.read_eq_ok hnext
  cases Scan.token_splits htoken with
  | finish _ hblank _ hstart _ => exact ⟨hblank, by rw [← hend, hstart]⟩
  | lexeme _ _ hne => exact absurd hkind hne

theorem read_eq_of_token {size offset : Nat} {previous : Option TokenKind} {rest rest' : List Char}
    {t : Token} (h : Scan.token previous offset rest = .ok (t, rest')) :
    Cursor.read size previous offset rest = .ok ⟨size, t.stop, rest', t⟩ := by
  rw [Cursor.read, h]

/-- **Going on leads to the same token again**, or past the end of the text to what comes after. -/
theorem Alike.next (hmore : Follows more) (h : Alike text more shift c d) {c' : Cursor}
    (hnext : c.next = .ok c') : ∃ d', d.next = .ok d' ∧ (Alike text more shift c' d' ∨
      more ≠ [] ∧ c'.current.isFinish = true ∧ AtEdge text more shift d') := by
  have hfinish : d.current.isFinish = c.current.isFinish := by
    rw [Token.isFinish, Token.isFinish, h.kind_eq]
  cases hc : c.current.isFinish with
  -- At the end of the first text both cursors stay where they are.
  | true =>
    rw [Cursor.next, if_pos hc] at hnext
    cases hnext
    exact ⟨d, by rw [Cursor.next, if_pos (hfinish.trans hc)], .inl h⟩
  | false =>
    obtain ⟨past, hstands⟩ := h.stands
    have hreached := (hstands.next hc hnext).1
    rw [Cursor.next_of_not_finish (hfinish.trans hc), h.kind_eq, h.offset_eq, h.rest_eq]
    have hread := hnext
    rw [Cursor.next_of_not_finish hc] at hread
    obtain ⟨-, hoffset, htoken⟩ := Cursor.read_eq_ok hread
    -- The token of the first text is read, `shift` bytes further on, if the text goes on behind it.
    have halike : Scan.token (some c.current.kind) c.offset (c.rest ++ more) =
        .ok (c'.current, c'.rest ++ more) → (more ≠ [] → c'.current.isFinish = false) →
        ∃ d', Cursor.read d.size (some c.current.kind) (c.offset + shift) (c.rest ++ more) = .ok d' ∧
          (Alike text more shift c' d' ∨
            more ≠ [] ∧ c'.current.isFinish = true ∧ AtEdge text more shift d') := by
      intro htoken' hc'
      have hshift := Scan.token_shift shift (some c.current.kind) c.offset (c.rest ++ more)
      rw [htoken'] at hshift
      refine ⟨_, read_eq_of_token hshift, .inl ⟨⟨_, .of_reaches hreached⟩, rfl, rfl, rfl, ?_, rfl, hc'⟩⟩
      show c'.current.start + shift + c'.current.text.utf8ByteSize = c'.offset + shift
      rw [hoffset, Token.stop]
      omega
    cases hm : more with
    | nil =>
      subst hm
      exact halike (by rw [List.append_nil, List.append_nil]; exact htoken) fun h => absurd rfl h
    | cons e rest =>
      rw [← hm]
      -- The next token is inside the first text, or that is over and the longer one goes on at its
      -- edge.
      by_cases hc' : c'.current.isFinish = false
      · refine halike ?_ fun _ => hc'
        rw [hm]
        exact Scan.token_append (hmore.separates hm) rest htoken (by simpa [Token.isFinish] using hc')
      · have hc' : c'.current.isFinish = true := by simpa using hc'
        obtain ⟨hblank, hend⟩ := offset_add_rest hstands hc hnext hc'
        obtain ⟨d', hd', -⟩ := hmore.reads (hm ▸ List.cons_ne_nil _ _) d.size (some c.current.kind)
          (Text.byteSize text + shift)
        refine ⟨d', ?_, .inr ⟨hm ▸ List.cons_ne_nil _ _, hc', d.size, some c.current.kind, hd'⟩⟩
        rw [Cursor.read, Scan.token_blank hblank, Nat.add_right_comm, hend]
        exact hd'

/-- What cannot be read in a text cannot be read in a longer one that ends with it. -/
theorem Alike.next_error (h : Alike text [] shift c d) {fault : Fault}
    (hnext : c.next = .error fault) : d.next = .error (fault.shift shift) := by
  have hfinish : d.current.isFinish = c.current.isFinish := by
    rw [Token.isFinish, Token.isFinish, h.kind_eq]
  cases hc : c.current.isFinish with
  | true =>
    rw [Cursor.next, if_pos hc] at hnext
    cases hnext
  | false =>
    rw [Cursor.next_of_not_finish (hfinish.trans hc), h.kind_eq, h.offset_eq, h.rest_eq,
      List.append_nil]
    rw [Cursor.next_of_not_finish hc] at hnext
    have hshift := Scan.token_shift shift (some c.current.kind) c.offset c.rest
    unfold Cursor.read at hnext ⊢
    split at hnext
    · rename_i fault' hfault
      cases hnext
      rw [hshift, hfault]
    · cases hnext

/-! ## §2. The pairing. -/

/-- A text and a longer one that contains it, `shift` bytes from its start, before `more`. -/
def within (text more : List Char) (shift : Nat) (base : List Nat) (hmore : Follows more) :
    Pairing where
  text := text
  alike := Alike text more shift
  cross c d := more ≠ [] ∧ c.current.isFinish = true ∧ AtEdge text more shift d
  place a b := b = a + shift
  base := base
  ends := more ≠ []
  stands h := h.stands
  kind_eq h := h.kind_eq
  text_eq h := h.text_eq
  start_eq h := h.start_eq
  next_ok h hnext := h.next hmore hnext
  next_error {c d fault} h hnext := by
    cases more with
    | nil => exact .inr ⟨_, h.next_error hnext, rfl⟩
    | cons e rest => exact .inl nofun
  replace h hkind hstart hkind' htext hplace :=
    have ⟨past, hstands⟩ := h.stands
    ⟨⟨past, hstands.replace hkind hstart⟩, hkind', htext, hplace, h.offset_eq, h.rest_eq,
      fun hm => by simpa [Token.isFinish, hkind] using h.finish hm⟩
  finish_of_cross h := h.2.1
  ends_of_cross h := h.1
  question_of_cross {c d} h := by
    obtain ⟨hm, -, size, previous, hread⟩ := h
    obtain ⟨d', hd', hkind⟩ := hmore.reads hm size previous (Text.byteSize text + shift)
    cases hread.symm.trans hd'
    exact hkind
  finish_of_ends hm h := h.finish hm

/-! ## §3. Where the two walks start. -/

/-- **A text starts with the same token wherever it stands.**  Nothing but a dot before it could
change that, and blanks between the two do not matter. -/
theorem open_within (hmore : Follows more) (hopen : Cursor.open? text = .ok c)
    (hc : more ≠ [] → c.current.isFinish = false) {blanks : List Char}
    (hblanks : ∀ e ∈ blanks, Text.isBlank e = true) {previous : Option TokenKind}
    (hprevious : previous ≠ some .dot) {offset : Nat}
    (hoffset : offset + Text.byteSize blanks = shift) (size : Nat) :
    ∃ d, Cursor.read size previous offset (blanks ++ (text ++ more)) = .ok d ∧
      Alike text more shift c d := by
  obtain ⟨-, hoff, htoken⟩ := Cursor.read_eq_ok hopen
  -- What comes behind the text changes nothing in its first token.
  have htoken : Scan.token none 0 (text ++ more) = .ok (c.current, c.rest ++ more) := by
    cases hm : more with
    | nil => rw [List.append_nil, List.append_nil]; exact htoken
    | cons e rest =>
      exact Scan.token_append (hmore.separates hm) rest htoken
        (by simpa [Token.isFinish] using hc (by rw [hm]; exact nofun))
  have hshift := Scan.token_shift shift none 0 (text ++ more)
  rw [htoken, Nat.zero_add] at hshift
  -- Neither do the blanks and the token before it, save for the offset.
  have hread : Scan.token previous offset (blanks ++ (text ++ more)) =
      .ok (c.current.shift shift, c.rest ++ more) := by
    rw [Scan.token_blank hblanks, hoffset]
    exact (Scan.token_previous (by simp [hprevious]) _ _).trans hshift
  refine ⟨_, read_eq_of_token hread, ⟨_, .of_reaches (.first hopen)⟩, rfl, rfl, rfl, ?_, rfl, hc⟩
  show c.current.start + shift + c.current.text.utf8ByteSize = c.offset + shift
  rw [hoff, Token.stop]
  omega

/-- A longer text starts with the same token. -/
theorem open_before (hmore : Follows more) (hopen : Cursor.open? text = .ok c)
    (hc : more ≠ [] → c.current.isFinish = false) :
    ∃ d, Cursor.open? (text ++ more) = .ok d ∧ Alike text more 0 c d :=
  open_within hmore hopen hc (nofun : ∀ e ∈ ([] : List Char), Text.isBlank e = true)
    (nofun : none ≠ some TokenKind.dot) (Nat.add_zero 0) _

/-- **What is reached in a text is reached in a longer one**, past what comes before it there. -/
theorem reaches_within (hmore : Follows more) (hopen : Cursor.open? text = .ok c)
    {longer : List Char} {before : List TokenKind} (hd : Reaches longer before d)
    (halike : Alike text more shift c d) {past : List TokenKind} {c' : Cursor}
    (h : Reaches text past c') : ∃ d', Reaches longer (past ++ before) d' ∧
      (Alike text more shift c' d' ∨
        more ≠ [] ∧ c'.current.isFinish = true ∧ AtEdge text more shift d') := by
  induction h with
  | first hopen' =>
    cases hopen.symm.trans hopen'
    exact ⟨d, hd, .inl halike⟩
  | @next past c₁ c₂ _ hc₁ hnext ih =>
    obtain ⟨d₁, hd₁, halike₁ | ⟨-, hfinish, -⟩⟩ := ih
    · obtain ⟨d₂, hd₂, halike₂⟩ := halike₁.next hmore hnext
      have hfinish : d₁.current.isFinish = false := by
        rw [Token.isFinish, halike₁.kind_eq]
        exact hc₁
      exact ⟨d₂, halike₁.kind_eq ▸ hd₁.next hfinish hd₂, halike₂⟩
    · cases hc₁.symm.trans hfinish

/-- `front` spells one token, with blanks around it, whatever comes before and after it. -/
structure Spells (front : List Char) (kind : TokenKind) (word : String) : Prop where
  separates : ∃ e rest, front = e :: rest ∧ Scan.separates e = true
  kind_not_mem : kind ∉ [.question, .dot, .finish]
  token : ∃ before blanks, (∀ e ∈ blanks, Text.isBlank e = true) ∧
    Text.byteSize front = before + word.utf8ByteSize + Text.byteSize blanks ∧
    ∀ previous start rest, Scan.token previous start (front ++ rest) =
      .ok (⟨kind, word, start + before⟩, blanks ++ rest)

/-- What starts with a token that touches none before it may come after any text. -/
theorem Spells.follows {front : List Char} {kind : TokenKind} {word : String}
    (h : Spells front kind word) (rest : List Char) : Follows (front ++ rest) := by
  obtain ⟨before, blanks, -, -, htoken⟩ := h.token
  obtain ⟨e, front, rfl, he⟩ := h.separates
  refine ⟨fun hcons => ?_, fun _ size previous start => ?_⟩
  · rw [List.cons_append] at hcons
    rw [← (List.cons.inj hcons).1]
    exact he
  · have hkind := h.kind_not_mem
    simp only [List.mem_cons, not_or] at hkind
    exact ⟨_, read_eq_of_token (htoken previous start rest), hkind.1⟩

theorem Spells.exists_read {front : List Char} {kind : TokenKind} {word : String}
    (h : Spells front kind word) (size : Nat) (previous : Option TokenKind) (start : Nat)
    (rest : List Char) : ∃ d, Cursor.read size previous start (front ++ rest) = .ok d :=
  have ⟨_, _, _, _, htoken⟩ := h.token
  ⟨_, read_eq_of_token (htoken previous start rest)⟩

/-- The token starts at the same place within `front` wherever that stands. -/
theorem Spells.exists_start {front : List Char} {kind : TokenKind} {word : String}
    (h : Spells front kind word) : ∃ before, before + word.utf8ByteSize ≤ Text.byteSize front ∧
      ∀ {size previous start rest d}, Cursor.read size previous start (front ++ rest) = .ok d →
        d.current.start = start + before := by
  obtain ⟨before, blanks, -, hsize, htoken⟩ := h.token
  refine ⟨before, by omega, fun {size previous start rest d} hd => ?_⟩
  rw [read_eq_of_token (htoken previous start rest)] at hd
  cases hd
  rfl

/-- **Past the token, the walk stands on the first token of the text after it.** -/
theorem Spells.read {front : List Char} {kind : TokenKind} {word : String}
    (h : Spells front kind word) (hmore : Follows more) (hopen : Cursor.open? text = .ok c)
    (hc : more ≠ [] → c.current.isFinish = false) {size start : Nat} {previous : Option TokenKind}
    (hd : Cursor.read size previous start (front ++ (text ++ more)) = .ok d) :
    d.current.kind = kind ∧ d.current.text = word ∧
      ∃ d', d.next = .ok d' ∧ Alike text more (start + Text.byteSize front) c d' := by
  obtain ⟨before, blanks, hblanks, hsize, htoken⟩ := h.token
  have hkind := h.kind_not_mem
  simp only [List.mem_cons, List.not_mem_nil, or_false, not_or] at hkind
  rw [read_eq_of_token (htoken previous start _)] at hd
  cases hd
  refine ⟨rfl, rfl, ?_⟩
  rw [Cursor.next_of_not_finish (by simpa [Token.isFinish] using hkind.2.2)]
  refine open_within hmore hopen hc hblanks (by simpa using hkind.2.1) ?_ size
  show start + before + word.utf8ByteSize + Text.byteSize blanks = _
  omega

end TypeAhead.Fragment
