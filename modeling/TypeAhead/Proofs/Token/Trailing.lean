/-
  TypeAhead.Proofs.Token.Trailing — BLANKS AT THE END OF A TEXT.

  With blanks after it a text has the same tokens at the same offsets, only its end
  comes later.  So do the faults of a text: they are where they were, but for a
  literal that is never closed, which is reported at the end.

      token_fault         a fault of a token
      tokenize_trailing   all tokens
      trailing            walks of the two texts are twins
-/
import TypeAhead.Proofs.Token.Ahead
import TypeAhead.Proofs.Walk.Twins

namespace TypeAhead

open Text

namespace Scan

variable {e : Char} {cs more : List Char} {start : Nat} {previous : Option TokenKind} {fault : Fault}

/-! ## §1. Numbers. -/

/-- A digit that is missing is missing before what separates tokens. -/
theorem exponent_fault (he : separates e = true) {n : Nat} (h : exponent cs = .error n) :
    exponent (cs ++ e :: more) = .error n := by
  have hdigit := (parts_of_separates he more).isDigit
  obtain ⟨c, tail, rfl, hmark, hdigits, rfl⟩ := exponent_eq_error_iff.1 h
  rw [exponent_eq_error_iff]
  cases tail with
  | nil =>
    -- The mark is the last character: what separates tokens is neither a sign nor a digit.
    have hsign : sign (e :: more) = [] := by
      have hplus : e ≠ '+' := ne_of_separates he (by decide)
      have hminus : e ≠ '-' := ne_of_separates he (by decide)
      unfold sign
      split <;> simp_all
    refine ⟨c, e :: more, rfl, hmark, ?_, by rw [hsign]; rfl⟩
    rw [hsign]
    exact List.takeWhile_cons_of_neg (by simp [hdigit])
  -- With more behind the mark, the sign is the same and digits are still missing.
  | cons d tail =>
    have hsign : sign (d :: tail ++ e :: more) = sign (d :: tail) := sign_append (List.cons_ne_nil d tail) _
    refine ⟨c, d :: tail ++ e :: more, rfl, hmark, ?_, by rw [hsign]⟩
    rw [hsign, drop_append (sign_isPrefix (d :: tail)), takeWhile_append_of_not hdigit, hdigits]

/-- An exponent without digits stays without them, before what separates tokens. -/
theorem realPart_fault (he : separates e = true) (h : realPart start cs = .error fault) :
    realPart start (cs ++ e :: more) = .error fault := by
  simp only [realPart] at h ⊢
  rw [fraction_append (parts_of_separates he more), drop_append (fraction_isPrefix cs)]
  split at h
  · rename_i n hexp
    rw [exponent_fault he hexp]
    exact h
  · cases h

/-- A number that is at fault stays so before what separates tokens. -/
theorem number_fault (he : separates e = true) (h : number start cs = .error fault) :
    number start (cs ++ e :: more) = .error fault := by
  simp only [number] at h ⊢
  rw [takeWhile_append_of_not (parts_of_separates he more).isDigit, drop_append (List.takeWhile_prefix _),
    hexMark?_append (parts_of_separates he more)]
  -- Only a mark without digits and an exponent without digits are faults.
  split at h
  · rename_i mark hmark
    obtain ⟨-, -, rest, hrest⟩ := hexMark?_eq_some hmark
    rw [hrest] at h ⊢
    simp only [List.cons_append, List.drop_succ_cons, List.drop_zero] at h ⊢
    rw [takeWhile_append_of_not (isHexDigit_of_not_isWordChar (isWordChar_of_separates he))]
    split at h
    · rename_i hempty
      rw [if_pos hempty]
      exact h
    · cases h
  · rw [integerSuffix_append (parts_of_separates he more)]
    split at h
    · rename_i hsuffix
      rw [if_pos hsuffix]
      split at h
      · rename_i hpart
        cases h
        rw [realPart_fault he hpart]
      · cases h
    · cases h

/-! ## §2. Literals. -/

/-- Characters that neither close a literal nor protect others. -/
def Inside (quote : Char) (cs : List Char) : Prop := ∀ c ∈ cs, c ≠ quote ∧ c ≠ '\\'

/-- A literal is not closed inside of it. -/
theorem literal?_of_inside {quote : Char} (h : Inside quote cs) (read : List Char) :
    literal? quote read cs = none := by
  induction cs generalizing read with
  | nil => rfl
  | cons c cs ih =>
    obtain ⟨hquote, hback⟩ := h c List.mem_cons_self
    rw [literal?_cons hback, if_neg hquote]
    exact ih (fun d hd => h d (List.mem_cons_of_mem c hd)) _

/-- A literal that is never closed goes on to the end. -/
theorem literal?_append_none {quote : Char} {read inside : List Char} (hinside : Inside quote inside)
    (h : literal? quote read cs = none) : literal? quote read (cs ++ inside) = none := by
  -- By the ways in which a literal goes on; none of them has come to a quote that closes it.
  fun_induction literal? quote read cs with
  | case1 => exact literal?_of_inside hinside _
  | case2 =>
    -- A backslash at the end protects the first character that comes after it.
    cases inside with
    | nil => rfl
    | cons c inside =>
      rw [List.singleton_append, literal?]
      exact literal?_of_inside (fun d hd => hinside d (List.mem_cons_of_mem c hd)) _
  | case3 read c cs ih =>
    rw [List.cons_append, List.cons_append, literal?]
    exact ih h
  | case4 read cs _ hesc ih =>
    rw [List.cons_append, List.cons_append, literal?_cons (fun hq => hesc _ _ hq rfl)]
    simpa using ih h
  | case5 => cases h
  | case6 => cases h
  | case7 read c cs hend hesc hc ih =>
    rw [List.cons_append, literal?_cons (ne_backslash hend hesc), if_neg hc]
    exact ih h

/-! ## §3. Faults of tokens. -/

/-- Where only blanks are left the text is over. -/
theorem token_of_blank (hblank : ∀ c ∈ cs, isBlank c = true) (previous : Option TokenKind) (start : Nat) :
    token previous start cs = .ok (.finish (start + byteSize cs), []) := by
  have h := token_blank hblank previous start []
  rw [List.append_nil] at h
  exact h

/-- The same offset, or the ends of the two texts. -/
def Later (size more a b : Nat) : Prop := b = a ∨ a = size ∧ b = size + more

/-- The same fault, or one at the end. -/
structure FaultLater (size more : Nat) (f g : Fault) : Prop where
  cause : g.cause = f.cause
  position : Later size more f.position g.position

/-- Blanks hold no quote. -/
theorem inside_of_blank {quote : Char} (hquote : quote = '"' ∨ quote = '\'')
    (hblank : ∀ c ∈ more, isBlank c = true) : Inside quote more := by
  intro c hc
  have hseparates := separates_of_blank (hblank c hc)
  refine ⟨?_, ?_⟩
  · rcases hquote with rfl | rfl
    · exact ne_of_separates hseparates (by decide)
    · exact ne_of_separates hseparates (by decide)
  · rintro rfl
    exact absurd (hblank '\\' hc) (by decide)

/-- The only fault that moves: an open literal takes the blanks as well and still has no end. -/
theorem quoted_fault {c : Char} (hquote : c = '"' ∨ c = '\'') (hblank : ∀ d ∈ e :: more, isBlank d = true)
    (h : quoted start c cs = .error fault) :
    ∃ g, quoted start c (cs ++ e :: more) = .error g ∧
      FaultLater (start + byteSize (c :: cs)) (byteSize (e :: more)) fault g := by
  have hinside := inside_of_blank hquote hblank
  unfold quoted at h ⊢
  split at h
  · rename_i hnone
    cases h
    rw [literal?_append_none hinside hnone]
    refine ⟨_, rfl, rfl, .inr ⟨?_, ?_⟩⟩
    · simp only [byteSize_cons]
      omega
    · simp only [byteSize_cons, byteSize_append]
      omega
  · rename_i read hread
    have hhead : (e :: more).head? ≠ some c := by simpa using (hinside e List.mem_cons_self).1
    rw [literal?_append _ hread (.inl hhead)]
    exact ⟨fault, h, rfl, .inl rfl⟩

/-- A token that is at fault before blanks is so without them; only the end of the text is further on. -/
theorem lexeme_fault {c : Char} (hblank : ∀ d ∈ e :: more, isBlank d = true)
    (h : Scan.lexeme previous start c cs = .error fault) :
    ∃ g, Scan.lexeme previous start c (cs ++ e :: more) = .error g ∧
      FaultLater (start + byteSize (c :: cs)) (byteSize (e :: more)) fault g := by
  have he : separates e = true := separates_of_blank (hblank e List.mem_cons_self)
  have hsymbol : symbol? c (cs ++ e :: more).head? = symbol? c cs.head? :=
    symbol?_append (fun _ hd => ne_of_separates he hd) c cs more
  -- Any other fault is where it was.
  have hsame (h : ReadsAs previous start c (cs ++ e :: more) (.error fault)) :
      ∃ g, Scan.lexeme previous start c (cs ++ e :: more) = .error g ∧
        FaultLater (start + byteSize (c :: cs)) (byteSize (e :: more)) fault g :=
    ⟨fault, lexeme_eq_iff.2 h, rfl, .inl rfl⟩
  cases lexeme_eq_iff.1 h with
  | symbol _ _ hread => cases hread
  | literal hnone hquote hread =>
    obtain ⟨g, hfault, hlater⟩ := quoted_fault hquote hblank hread
    exact ⟨g, lexeme_eq_iff.2 (.literal (hsymbol.trans hnone) hquote hfault), hlater⟩
  | word hnone hquote hstarts hread =>
    have hword := word_append (parts_of_separates he more) previous start c cs
    exact hsame (.word (hsymbol.trans hnone) hquote hstarts (hword.trans hread))
  | number hnone hquote hstarts hdigit hread =>
    exact hsame (.number (hsymbol.trans hnone) hquote hstarts hdigit (number_fault he hread))
  | other hnone hquote hstarts hdigit hread =>
    exact hsame (.other (hsymbol.trans hnone) hquote hstarts hdigit hread)

/-- **Before blanks a token has the same fault**, where it was or at the end. -/
theorem token_fault (hblank : ∀ d ∈ e :: more, isBlank d = true)
    (h : token previous start cs = .error fault) :
    ∃ g, token previous start (cs ++ e :: more) = .error g ∧
      FaultLater (start + byteSize cs) (byteSize (e :: more)) fault g := by
  have hcs : cs.takeWhile isBlank ++ cs.dropWhile isBlank = cs := List.takeWhile_append_dropWhile
  simp only [token] at h ⊢
  split at h
  · cases h
  · rename_i c tail hdrop
    -- The blanks before the token are the same in both texts.
    obtain ⟨htake, hdrop'⟩ := blanks_append hdrop (e :: more)
    rw [htake, hdrop']
    simp only
    split at h
    · rename_i hlexeme
      cases h
      obtain ⟨g, hg, hlater⟩ := lexeme_fault hblank hlexeme
      rw [hg]
      refine ⟨g, rfl, ?_⟩
      have hsize : byteSize (cs.takeWhile isBlank) + byteSize (c :: tail) = byteSize cs := by
        rw [← hdrop, ← byteSize_append, hcs]
      rwa [Nat.add_assoc, hsize] at hlater
    · cases h

end Scan

/-! ## §4. Reading. -/

open Scan (Later)

/-- The second cursor stands on the same token with blanks behind its text, or both texts are over. -/
inductive Trails (blanks : List Char) : Cursor → Cursor → Prop where
  | on {c : Cursor} (hc : c.current.isFinish = false) (hsize : c.offset + byteSize c.rest = c.size) :
      Trails blanks c { c with size := c.size + byteSize blanks, rest := c.rest ++ blanks }
  | finish {size : Nat} : Trails blanks ⟨size, size, [], .finish size⟩
      ⟨size + byteSize blanks, size + byteSize blanks, [], .finish (size + byteSize blanks)⟩

variable {blanks : List Char} {c d : Cursor}

/-- **With blanks behind them the same token is read**, or the same fault. -/
theorem agree_read (hne : blanks ≠ []) (hblank : ∀ e ∈ blanks, isBlank e = true)
    (previous : Option TokenKind) {size offset : Nat} {rest : List Char}
    (hsize : offset + byteSize rest = size) :
    Agree (Later size (byteSize blanks))
      (fun c d => Trails blanks c d ∧ c.size = size ∧
        (c.current.isFinish = false → byteSize c.rest < byteSize rest))
      (Cursor.read size previous offset rest)
      (Cursor.read (size + byteSize blanks) previous offset (rest ++ blanks)) := by
  obtain ⟨e, more, rfl⟩ := List.exists_cons_of_ne_nil hne
  have he := Scan.separates_of_blank (hblank e List.mem_cons_self)
  unfold Cursor.read
  cases htoken : Scan.token previous offset rest with
  | error fault =>
    obtain ⟨g, hg, hlater⟩ := Scan.token_fault hblank htoken
    rw [hg, ← hsize]
    exact .error hlater.cause hlater.position
  | ok read =>
    obtain ⟨t, rest'⟩ := read
    cases Scan.token_splits htoken with
    -- A token is read from what stands before the blanks that trail.
    | lexeme before lexeme hkind hrest hlexeme htext hstart =>
      rw [Scan.token_append he more htoken hkind]
      have hstop : t.stop = offset + byteSize before + byteSize lexeme := by
        rw [Token.stop, hstart, htext, utf8ByteSize_ofList]
      have hpos := byteSize_pos hlexeme
      have ht : t.isFinish = false := by simpa [Token.isFinish] using hkind
      rw [hrest] at hsize ⊢
      simp only [byteSize_append] at hsize ⊢
      refine .ok ⟨.on (c := ⟨size, t.stop, rest', t⟩) ht ?_, rfl, fun _ => ?_⟩
      · simp only [hstop]
        omega
      · dsimp only
        omega
    | finish _ hrest =>
      -- Only blanks are left, and more of them come after.
      have hboth : ∀ c ∈ rest ++ e :: more, isBlank c = true :=
        fun c hc => (List.mem_append.1 hc).elim (hrest c) (hblank c)
      cases (Scan.token_of_blank hrest previous offset).symm.trans htoken
      rw [Scan.token_of_blank hboth, byteSize_append, ← Nat.add_assoc, hsize]
      exact .ok ⟨.finish, rfl, by simp [Token.isFinish, Token.finish]⟩

/-- The first token is the same, or the fault that there is none. -/
theorem agree_open (hne : blanks ≠ []) (hblank : ∀ e ∈ blanks, isBlank e = true) (text : List Char) :
    Agree (Later (byteSize text) (byteSize blanks))
      (fun c d => Trails blanks c d ∧ c.size = byteSize text ∧
        (c.current.isFinish = false → byteSize c.rest < byteSize text))
      (Cursor.open? text) (Cursor.open? (text ++ blanks)) := by
  have h := agree_read hne hblank none (Nat.zero_add (byteSize text))
  rwa [← byteSize_append] at h

/-- From corresponding tokens, the next ones correspond, or the faults do. -/
theorem Trails.agree_next (hne : blanks ≠ []) (hblank : ∀ e ∈ blanks, isBlank e = true)
    (h : Trails blanks c d) (hc : c.current.isFinish = false) :
    Agree (Later c.size (byteSize blanks))
      (fun c' d' => Trails blanks c' d' ∧ c'.size = c.size ∧
        (c'.current.isFinish = false → byteSize c'.rest < byteSize c.rest)) c.next d.next := by
  cases h with
  | finish => cases hc
  | on hc hsize =>
    have hread : { c with size := c.size + byteSize blanks, rest := c.rest ++ blanks : Cursor }.next =
        Cursor.read (c.size + byteSize blanks) (some c.current.kind) c.offset (c.rest ++ blanks) :=
      Cursor.next_of_not_finish hc
    rw [hread, Cursor.next_of_not_finish hc]
    exact agree_read hne hblank _ hsize

/-- The longer text is longer by its blanks. -/
theorem Trails.size_eq (h : Trails blanks c d) : d.size = c.size + byteSize blanks := by
  cases h <;> rfl

/-- Up to the end the tokens are the same ones. -/
theorem Trails.current_eq (h : Trails blanks c d) (hc : c.current.isFinish = false) :
    d.current = c.current := by
  cases h with
  | on => rfl
  | finish => cases hc

/-! ## §5. All tokens. -/

/-- The same tokens up to the end. -/
inductive Ends (size more : Nat) : List Token → List Token → Prop where
  | of (ts : List Token) : Ends size more (ts ++ [.finish size]) (ts ++ [.finish (size + more)])

/-- At the end of a text there is nothing more to collect. -/
theorem collect_of_finish (hc : c.current.isFinish = true) (budget : Nat) (read : List Token) :
    c.collect budget read = .ok (read.reverse ++ [c.current]) := by
  cases budget <;> simp [Cursor.collect, hc]

/-- All tokens, by induction on the budget, which suffices in both texts. -/
theorem agree_collect (hne : blanks ≠ []) (hblank : ∀ e ∈ blanks, isBlank e = true)
    {budget budget' : Nat} (hbudget : c.current.isFinish = false → byteSize c.rest < budget)
    (hbudget' : c.current.isFinish = false → byteSize c.rest < budget')
    (h : Trails blanks c d) (read : List Token) :
    Agree (Later c.size (byteSize blanks)) (Ends c.size (byteSize blanks))
      (c.collect budget read) (d.collect budget' read) := by
  -- Each round takes characters from the rest, so that no budget runs out before the text is over.
  induction budget generalizing budget' c d read with
  | zero =>
    cases h with
    | on hc => exact absurd (hbudget hc) (Nat.not_lt_zero _)
    | finish =>
      rw [collect_of_finish rfl, collect_of_finish rfl]
      exact .ok (.of _)
  | succ budget ih =>
    cases h with
    | finish =>
      rw [collect_of_finish rfl, collect_of_finish rfl]
      exact .ok (.of _)
    | @on c hc hsize =>
      have hlt := hbudget hc
      have hlt' := hbudget' hc
      obtain ⟨budget', rfl⟩ : ∃ n, budget' = n + 1 := ⟨budget' - 1, by omega⟩
      have hnext := (Trails.on hc hsize).agree_next hne hblank hc
      simp only [Cursor.collect, hc, Bool.false_eq_true, if_false]
      generalize c.next = o at hnext ⊢
      generalize Cursor.next ⟨_, _, _, c.current⟩ = q at hnext ⊢
      cases hnext with
      | error hcause hplace => exact .error hcause hplace
      | ok hnext =>
        obtain ⟨htrails, hsame, hshorter⟩ := hnext
        rw [← hsame]
        refine ih (fun hf => ?_) (fun hf => ?_) htrails (c.current :: read)
        · exact Nat.lt_of_lt_of_le (hshorter hf) (Nat.le_of_lt_succ hlt)
        · exact Nat.lt_of_lt_of_le (hshorter hf) (Nat.le_of_lt_succ hlt')

/-- **The tokens are the same but for the end**, or the fault is. -/
theorem tokenize_trailing (hne : blanks ≠ []) (hblank : ∀ e ∈ blanks, isBlank e = true)
    (text : String) :
    Agree (Later (byteSize text.toList) (byteSize blanks))
      (Ends (byteSize text.toList) (byteSize blanks))
      (tokenize text) (tokenize (text ++ String.ofList blanks)) := by
  have hopen := agree_open hne hblank text.toList
  unfold tokenize
  rw [String.toList_append, String.toList_ofList]
  generalize Cursor.open? text.toList = o at hopen ⊢
  generalize Cursor.open? (text.toList ++ blanks) = q at hopen ⊢
  cases hopen with
  | error hcause hplace => exact .error hcause hplace
  | @ok c d h =>
    obtain ⟨htrails, hsize, hshorter⟩ := h
    -- The budget is the size of the text, and the longer text has more of it.
    have hlonger := htrails.size_eq
    rw [← hsize] at hshorter ⊢
    refine agree_collect hne hblank (fun hf => ?_) (fun hf => ?_) htrails []
    · exact Nat.lt_succ_of_lt (hshorter hf)
    · have := hshorter hf
      omega

/-! ## §6. Walks. -/

/-- The second cursor stands on the same token with blanks behind its text, however it is worded, or
both texts are over; at most `n` tokens are ahead. -/
structure Before (size : Nat) (blanks : List Char) (n : Nat) (c d : Cursor) : Prop where
  trails : ∃ s t : Token, Trails blanks { c with current := s } { d with current := t } ∧
    s.kind = c.current.kind ∧ t.kind = d.current.kind
  ahead : c.current.isFinish = false → byteSize c.rest < n
  size_eq : c.size = size
  le_size : n ≤ size + 1
  kind_eq : d.current.kind = c.current.kind
  text_eq : d.current.text = c.current.text
  start_eq : Later size (byteSize blanks) c.current.start d.current.start

/-- Cursors that correspond are before the same end. -/
theorem Trails.before {n : Nat} (h : Trails blanks c d)
    (hahead : c.current.isFinish = false → byteSize c.rest < n) (hn : n ≤ c.size + 1) :
    Before c.size blanks n c d := by
  cases h with
  | on hc hsize => exact ⟨⟨_, _, .on hc hsize, rfl, rfl⟩, hahead, rfl, hn, rfl, rfl, .inl rfl⟩
  | finish => exact ⟨⟨_, _, .finish, rfl, rfl⟩, hahead, rfl, hn, rfl, rfl, .inr ⟨rfl, rfl⟩⟩

/-- **A text with blanks behind it is walked by twins.** -/
def trailing (size : Nat) (blanks : List Char) (hne : blanks ≠ [])
    (hblank : ∀ e ∈ blanks, isBlank e = true) : Twins where
  alike := Before size blanks
  place := Later size (byteSize blanks)
  kind_eq h := h.kind_eq
  text_eq h := h.text_eq
  start_eq h := h.start_eq
  le_size {n c d} h := by
    obtain ⟨s, t, htrails, -⟩ := h.trails
    have hsize : d.size = c.size + byteSize blanks := htrails.size_eq
    have := h.le_size
    have := h.size_eq
    omega
  next {n c d} h hc := by
    obtain ⟨s, t, htrails, hs, ht⟩ := h.trails
    have hd : d.current.isFinish = false := by rwa [Token.isFinish, h.kind_eq]
    have hnext := htrails.agree_next hne hblank (by rwa [Token.isFinish, hs])
    -- Where the token was replaced, what is next is still what comes after the one that was read.
    have hc' : { c with current := s : Cursor }.next = c.next := Cursor.next_congr rfl rfl rfl hs hc
    have hd' : { d with current := t : Cursor }.next = d.next := Cursor.next_congr rfl rfl rfl ht hd
    rw [hc', hd'] at hnext
    have hahead := h.ahead hc
    have hn := h.le_size
    rw [← h.size_eq] at hn ⊢
    generalize c.next = o at hnext
    generalize d.next = q at hnext
    cases hnext with
    | error hcause hplace => exact .error hcause hplace
    | @ok c' d' h' =>
      obtain ⟨htrails', hsize, hshorter⟩ := h'
      have hsize : c'.size = c.size := hsize
      rw [← hsize] at hn ⊢
      exact .ok ⟨byteSize c.rest, hahead, htrails'.before hshorter (by omega)⟩
  replace {n c d s t} h hkind hkind' htext hplace := by
    obtain ⟨s', t', htrails, hs, ht⟩ := h.trails
    refine ⟨⟨s', t', htrails, hs.trans hkind.symm, ht.trans ?_⟩, ?_, h.size_eq, h.le_size, hkind',
      htext, hplace⟩
    · exact h.kind_eq.trans (hkind.symm.trans hkind'.symm)
    · intro hf
      refine h.ahead ?_
      rwa [Token.isFinish, ← hkind]

/-- Both texts start at the first token. -/
theorem agree_first (hne : blanks ≠ []) (hblank : ∀ e ∈ blanks, isBlank e = true) (text : List Char) :
    Agree (Later (byteSize text) (byteSize blanks))
      (fun c d => ∃ n, Before (byteSize text) blanks n c d)
      (Cursor.open? text) (Cursor.open? (text ++ blanks)) := by
  have hopen := agree_open hne hblank text
  generalize Cursor.open? text = o at hopen ⊢
  generalize Cursor.open? (text ++ blanks) = q at hopen ⊢
  cases hopen with
  | error hcause hplace => exact .error hcause hplace
  | @ok c d h =>
    obtain ⟨htrails, hsize, hshorter⟩ := h
    refine .ok ⟨byteSize text, ?_⟩
    rw [← hsize] at hshorter ⊢
    exact htrails.before hshorter (Nat.le_succ _)

end TypeAhead
