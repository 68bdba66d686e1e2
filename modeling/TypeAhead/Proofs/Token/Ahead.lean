/-
  TypeAhead.Proofs.Token.Ahead — THE TOKENS THAT ARE STILL AHEAD.

  What a cursor reads, from its token on up to the end of the text.  The tokens of
  a text are the first one and those after it, and there are no more of them than
  the text has bytes, save for its end.

  Written with blanks between any two of them, the tokens of a text are read again,
  the same kinds with the same wording.

      after_of_tokenize     the tokens of a text are ahead of its first one
      tokenize_of_after     and what is ahead of the first one are the tokens
      tokenize_eq_ok_iff    they are read one after the other from its characters
      tokenize_of_spaced    tokens with blanks between them
-/
import TypeAhead.Proofs.Token.Reading
import TypeAhead.Proofs.Token.Spacing

namespace TypeAhead

open Text

/-- What a token is, wherever it stands. -/
def Token.face (t : Token) : TokenKind × String := (t.kind, t.text)

/-! ## §1. Tokens after a cursor. -/

/-- `After c ts`: reading on from `c` leads past the tokens `ts`, of which the last one is the end of
the text. -/
inductive After : Cursor → List Token → Prop where
  | finish {c : Cursor} (hc : c.current.isFinish = true) : After c []
  | next {c d : Cursor} {ts : List Token} (hc : c.current.isFinish = false) (hnext : c.next = .ok d)
      (h : After d ts) : After c (d.current :: ts)

variable {text : List Char} {past : List TokenKind} {c d : Cursor} {ts tokens : List Token}

/-- How the current token is worded, and where it starts, makes no difference to what comes after. -/
theorem After.congr (h : After c ts) (hsize : d.size = c.size) (hoffset : d.offset = c.offset)
    (hrest : d.rest = c.rest) (hkind : d.current.kind = c.current.kind) : After d ts := by
  have hfinish : d.current.isFinish = c.current.isFinish := by
    rw [Token.isFinish, Token.isFinish, hkind]
  cases h with
  | finish hc => exact .finish (hfinish.trans hc)
  | next hc hnext h =>
    exact .next (hfinish.trans hc) ((Cursor.next_congr hsize hoffset hrest hkind hc).trans hnext) h

/-- Tokens ahead take a byte each, save for the end of the text. -/
theorem After.length_le (h : After c ts) (hreached : Reaches text past c) :
    ts.length + c.current.start ≤ byteSize text := by
  induction h generalizing past with
  | finish => simpa using hreached.start_le
  | @next c d ts hc hnext h ih =>
    have hlt : c.current.start < d.current.start :=
      Nat.lt_of_lt_of_le (hreached.start_lt_offset hc) (Reaches.offset_le_next hc hnext)
    have := ih (hreached.next hc hnext)
    rw [List.length_cons]
    omega

/-- All tokens are collected if there is a token for each round. -/
theorem After.collect (h : After c ts) {budget : Nat} (hbudget : ts.length ≤ budget)
    (read : List Token) : c.collect budget read = .ok (read.reverse ++ c.current :: ts) := by
  induction h generalizing budget read with
  | finish hc => cases budget <;> simp [Cursor.collect, hc]
  | next hc hnext h ih =>
    obtain _ | budget := budget
    · exact absurd hbudget (by simp)
    · simp only [Cursor.collect, hc, hnext, Bool.false_eq_true, if_false]
      rw [ih (by simpa using hbudget)]
      simp

/-- What is collected are the tokens ahead, if the text has no more bytes than there are rounds. -/
theorem after_of_collect {budget : Nat} {read : List Token} (hreached : Reaches text past c)
    (hbudget : byteSize text < c.current.start + budget) (h : c.collect budget read = .ok tokens) :
    ∃ ts, tokens = read.reverse ++ c.current :: ts ∧ After c ts := by
  -- Each token starts later than the one before, so that the budget is enough for the text.
  induction budget generalizing past read c with
  | zero => exact absurd hreached.start_le (by omega)
  | succ budget ih =>
    rw [Cursor.collect] at h
    split at h
    · rename_i hc
      cases h
      exact ⟨[], by simp, .finish hc⟩
    · rename_i hc
      have hc : c.current.isFinish = false := by simpa using hc
      split at h
      · cases h
      · rename_i d hnext
        have hlt : c.current.start < d.current.start :=
          Nat.lt_of_lt_of_le (hreached.start_lt_offset hc) (Reaches.offset_le_next hc hnext)
        obtain ⟨ts, rfl, hafter⟩ := ih (hreached.next hc hnext) (by omega) h
        exact ⟨d.current :: ts, by simp, .next hc hnext hafter⟩

/-! ## §2. The tokens of a text. -/

theorem after_of_tokenize {text : String} (h : tokenize text = .ok tokens) :
    ∃ c ts, Cursor.open? text.toList = .ok c ∧ tokens = c.current :: ts ∧ After c ts := by
  unfold tokenize at h
  split at h
  · cases h
  · rename_i c hopen
    have hsize : c.size = byteSize text.toList := (Cursor.read_eq_ok hopen).1
    obtain ⟨ts, htokens, hafter⟩ := after_of_collect (.first hopen) (by omega) h
    exact ⟨c, ts, hopen, htokens, hafter⟩

theorem tokenize_of_after {text : String} (hopen : Cursor.open? text.toList = .ok c)
    (h : After c ts) : tokenize text = .ok (c.current :: ts) := by
  have hsize : c.size = byteSize text.toList := (Cursor.read_eq_ok hopen).1
  have hlength := h.length_le (.first hopen)
  simp only [tokenize, hopen]
  exact h.collect (by omega) []

/-- What is read next is among the tokens ahead. -/
theorem After.suffix (hopen : Cursor.open? text = .ok c) (h : After c ts) (hd : Reaches text past d) :
    ∃ us, After d us ∧ d.current :: us <:+ c.current :: ts := by
  induction hd with
  | first hopen' =>
    cases hopen.symm.trans hopen'
    exact ⟨ts, h, List.suffix_refl _⟩
  | @next past d e hd hfinish hnext ih =>
    obtain ⟨us, hafter, hsuffix⟩ := ih
    cases hafter with
    | finish hfinish' => cases hfinish.symm.trans hfinish'
    | next _ hnext' hafter =>
      cases hnext.symm.trans hnext'
      exact ⟨_, hafter, (List.suffix_cons _ _).trans hsuffix⟩

/-- Every token that is reached is a token of the text. -/
theorem mem_of_reaches {text : String} (h : tokenize text = .ok tokens) (hd : Reaches text.toList past d) :
    d.current ∈ tokens := by
  obtain ⟨c, ts, hopen, rfl, hafter⟩ := after_of_tokenize h
  obtain ⟨us, -, hsuffix⟩ := hafter.suffix hopen hd
  exact hsuffix.subset List.mem_cons_self

/-- What is ahead of a token can be reached from there. -/
theorem reaches_of_mem {t : Token} (hc : Reaches text past c) (h : After c ts) (ht : t ∈ c.current :: ts) :
    ∃ past' d, Reaches text past' d ∧ d.current = t := by
  induction h generalizing past with
  | finish =>
    rw [List.mem_singleton] at ht
    exact ⟨past, _, hc, ht.symm⟩
  | next hfinish hnext _ ih =>
    rcases List.mem_cons.1 ht with rfl | ht
    · exact ⟨past, _, hc, rfl⟩
    · exact ih (hc.next hfinish hnext) ht

/-- A text has no more tokens than bytes, save for its end. -/
theorem length_of_tokenize {text : String} (h : tokenize text = .ok tokens) :
    tokens.length ≤ byteSize text.toList + 1 := by
  obtain ⟨c, ts, hopen, rfl, hafter⟩ := after_of_tokenize h
  have := hafter.length_le (.first hopen)
  rw [List.length_cons]
  omega

/-! ## §3. Tokens of characters. -/

/-- The tokens that are read from characters that stand at the offset, up to their end. -/
inductive Tokenizes : Option TokenKind → Nat → List Char → List Token → Prop where
  | finish {previous : Option TokenKind} {offset : Nat} {cs rest : List Char} {t : Token}
      (hread : Scan.token previous offset cs = .ok (t, rest)) (ht : t.kind = .finish) :
      Tokenizes previous offset cs [t]
  | next {previous : Option TokenKind} {offset : Nat} {cs rest : List Char} {t : Token} {ts : List Token}
      (hread : Scan.token previous offset cs = .ok (t, rest)) (ht : t.kind ≠ .finish)
      (h : Tokenizes (some t.kind) t.stop rest ts) : Tokenizes previous offset cs (t :: ts)

theorem tokenizes_of_after {size offset : Nat} {previous : Option TokenKind} {cs : List Char} (h : After c ts)
    (hread : Cursor.read size previous offset cs = .ok c) : Tokenizes previous offset cs (c.current :: ts) := by
  induction h generalizing size previous offset cs with
  | finish hc =>
    obtain ⟨-, -, htoken⟩ := Cursor.read_eq_ok hread
    exact .finish htoken (by simpa [Token.isFinish] using hc)
  | next hc hnext _ ih =>
    obtain ⟨-, hoffset, htoken⟩ := Cursor.read_eq_ok hread
    rw [Cursor.next_of_not_finish hc, hoffset] at hnext
    exact .next htoken (by simpa [Token.isFinish] using hc) (ih hnext)

theorem after_of_tokenizes {offset : Nat} {previous : Option TokenKind} {cs : List Char}
    (h : Tokenizes previous offset cs tokens) (size : Nat) :
    ∃ c ts, Cursor.read size previous offset cs = .ok c ∧ After c ts ∧ c.current :: ts = tokens := by
  induction h with
  | finish hread ht => exact ⟨_, [], by rw [Cursor.read, hread], .finish (by simp [Token.isFinish, ht]), rfl⟩
  | @next _ _ _ rest t _ hread ht _ ih =>
    obtain ⟨c, ts, hnext, hafter, rfl⟩ := ih
    have hc : t.isFinish = false := by simp [Token.isFinish, ht]
    refine ⟨⟨size, t.stop, rest, t⟩, _, by rw [Cursor.read, hread], .next hc ?_ hafter, rfl⟩
    rw [Cursor.next_of_not_finish hc]
    exact hnext

/-- **The tokens of a text are those that are read from its characters.** -/
theorem tokenize_eq_ok_iff {text : String} :
    tokenize text = .ok tokens ↔ Tokenizes none 0 text.toList tokens := by
  constructor
  · intro h
    obtain ⟨c, ts, hopen, rfl, hafter⟩ := after_of_tokenize h
    exact tokenizes_of_after hafter hopen
  · intro h
    obtain ⟨c, ts, hopen, hafter, rfl⟩ := after_of_tokenizes h (byteSize text.toList)
    exact tokenize_of_after hopen hafter

/-! ## §4. Tokens with blanks between them. -/

/-- The wordings of the tokens of a text, without its end. -/
def wordings (tokens : List Token) : List String :=
  (tokens.filter fun t => !t.isFinish).map Token.text

/-- The words one after the other, with blanks between any two of them. -/
inductive Spaced : List String → List Char → Prop where
  | nil : Spaced [] []
  | single (word : String) : Spaced [word] word.toList
  | cons {word next : String} {words : List String} {blanks cs : List Char} (hne : blanks ≠ [])
      (hblank : ∀ e ∈ blanks, isBlank e = true) (h : Spaced (next :: words) cs) :
      Spaced (word :: next :: words) (word.toList ++ (blanks ++ cs))

/-- What comes after the first word: nothing, or blanks and the other words. -/
theorem Spaced.tail {word : String} {words : List String} {cs : List Char}
    (h : Spaced (word :: words) cs) : ∃ blanks rest, cs = word.toList ++ (blanks ++ rest) ∧
      (∀ e ∈ blanks, isBlank e = true) ∧ Spaced words rest ∧
      (blanks ++ rest ≠ [] → blanks ≠ []) := by
  cases h with
  | single => exact ⟨[], [], by simp, nofun, .nil, fun h => absurd rfl h⟩
  | cons hne hblank h => exact ⟨_, _, rfl, hblank, h, fun _ => hne⟩

/-- A token with blanks after it, or nothing, is read alone. -/
theorem Scan.token_before_blanks {previous : Option TokenKind} {start : Nat} {cs rest : List Char}
    {t : Token} (h : Scan.token previous start cs = .ok (t, rest)) (ht : t.kind ≠ .finish)
    {blanks more : List Char} (hblank : ∀ e ∈ blanks, isBlank e = true)
    (hne : blanks ++ more ≠ [] → blanks ≠ []) (start' : Nat) :
    ∃ t' : Token, t'.face = t.face ∧
      Scan.token previous start' (t.text.toList ++ (blanks ++ more)) = .ok (t', blanks ++ more) := by
  have halone := Scan.token_alone start' h ht
  refine ⟨⟨t.kind, t.text, start'⟩, rfl, ?_⟩
  cases blanks with
  | nil =>
    have hmore : more = [] := Classical.byContradiction fun hmore => hne hmore rfl
    rw [hmore, List.nil_append, List.append_nil, halone]
  | cons e blanks =>
    have he := Scan.separates_of_blank (hblank e List.mem_cons_self)
    exact Scan.token_append he (blanks ++ more) halone ht

/-- **Tokens are read again behind blanks**, with blanks between them. -/
theorem read_of_spaced {size offset : Nat} {previous previous' : Option TokenKind}
    {rest cs : List Char} (h : After c ts) (hread : Cursor.read size previous offset rest = .ok c)
    (hspaced : Spaced (wordings (c.current :: ts)) cs)
    (hprevious : previous' = some .dot ↔ previous = some .dot) (size' offset' : Nat)
    {blanks : List Char} (hblank : ∀ e ∈ blanks, isBlank e = true) :
    ∃ c' ts', Cursor.read size' previous' offset' (blanks ++ cs) = .ok c' ∧ After c' ts' ∧
      (c'.current :: ts').map Token.face = (c.current :: ts).map Token.face := by
  -- Along the tokens of the first text: each is found again behind other blanks.
  induction h generalizing size offset previous previous' rest cs size' offset' blanks with
  | @finish c hc =>
    have hkind : c.current.kind = .finish := Token.isFinish_iff.1 hc
    -- At the end nothing is left to be written.
    have hcs : cs = [] := by
      simp only [wordings, List.filter_cons, hc, Bool.not_true, Bool.false_eq_true, if_false,
        List.filter_nil, List.map_nil] at hspaced
      cases hspaced
      rfl
    have htext : c.current.text = "" := by
      cases Scan.token_splits (Cursor.read_eq_ok hread).2.2 with
      | finish _ _ htext => exact htext
      | lexeme _ _ hne => exact absurd hkind hne
    have hread' : Cursor.read size' previous' offset' (blanks ++ cs) = .ok ⟨size',
        (Token.finish (offset' + byteSize blanks)).stop, [], .finish (offset' + byteSize blanks)⟩ := by
      rw [hcs, Cursor.read, Scan.token_blank hblank]
      rfl
    refine ⟨_, [], hread', .finish rfl, ?_⟩
    simp [Token.face, Token.finish, hkind, htext]
  | @next c d ts hc hnext h ih =>
    have hkind : c.current.kind ≠ .finish := Token.isFinish_eq_false_iff.1 hc
    obtain ⟨-, -, htoken⟩ := Cursor.read_eq_ok hread
    have hwordings : wordings (c.current :: d.current :: ts) =
        c.current.text :: wordings (d.current :: ts) := by
      simp [wordings, List.filter_cons, hc]
    rw [hwordings] at hspaced
    obtain ⟨blanks', cs', rfl, hblank', hspaced', hne⟩ := hspaced.tail
    rw [← Scan.token_previous hprevious] at htoken
    -- What stands behind the token separates it as much as before.
    obtain ⟨t, hface, hread'⟩ :=
      Scan.token_before_blanks htoken hkind hblank' hne (offset' + byteSize blanks)
    obtain ⟨htkind, -⟩ := Prod.mk.inj hface
    rw [← Scan.token_blank hblank] at hread'
    have hfirst : Cursor.read size' previous' offset'
        (blanks ++ (c.current.text.toList ++ (blanks' ++ cs'))) =
          .ok ⟨size', t.stop, blanks' ++ cs', t⟩ := by
      rw [Cursor.read, hread']
    have hdot : some t.kind = some .dot ↔ some c.current.kind = some .dot := by rw [htkind]
    rw [Cursor.next_of_not_finish hc] at hnext
    obtain ⟨d', ts', hd', hafter, hfaces⟩ :=
      ih hnext hspaced' hdot size' t.stop hblank'
    have ht : t.isFinish = false := by rw [Token.isFinish, htkind]; exact hc
    refine ⟨_, _, hfirst, .next ht ?_ hafter, ?_⟩
    · rw [Cursor.next_of_not_finish ht]
      exact hd'
    · rw [List.map_cons, hfaces, hface]
      rfl

/-- **The tokens of a text, with blanks between them, are the same tokens.** -/
theorem tokenize_of_spaced {text spaced : String} (h : tokenize text = .ok tokens)
    (hspaced : Spaced (wordings tokens) spaced.toList) :
    ∃ tokens', tokenize spaced = .ok tokens' ∧ tokens'.map Token.face = tokens.map Token.face := by
  obtain ⟨c, ts, hopen, rfl, hafter⟩ := after_of_tokenize h
  obtain ⟨c', ts', hopen', hafter', hface⟩ := read_of_spaced hafter hopen hspaced Iff.rfl
    (byteSize spaced.toList) 0 (nofun : ∀ e ∈ ([] : List Char), isBlank e = true)
  exact ⟨_, tokenize_of_after hopen' hafter', hface⟩

end TypeAhead
