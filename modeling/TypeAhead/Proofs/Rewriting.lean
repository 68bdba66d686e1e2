/-
  TypeAhead.Proofs.Rewriting — OLD SPELLINGS ARE REPLACED ONCE AND FOR ALL.

  The new text is the old one with other words in the places of its old spellings, so
  the tokens of the new text are those of the old one, one by one, with keywords for old
  spellings.  There is one exception: a number may stand right before an old spelling,
  and take the first letters of the keyword for its own.  What it leaves of the keyword
  is a word as well, and no old spelling either.  So there is nothing left to replace.

      mem_edits_iff            what is replaced
      Rewrites.replaced_edits  where
      quiet_of_rewrites        nothing is left to replace
      faces_of_rewrites        the new tokens, where no number stands before an old spelling
      legacy_rewriting         all of it
-/
import Mathlib.Data.List.Infix
import TypeAhead.Proofs.Respelling
import TypeAhead.Proofs.Token.Neighbours

namespace TypeAhead.Legacy

open Text Scan

variable {previous previous' : Option TokenKind} {offset : Nat} {t : Token} {e : Edit} {es : List Edit}
  {cs cs' rest rest' blanks left : List Char} {ts tokens : List Token} {word keyword : String}

/-! ## §1. Keywords. -/

/-- The table of old spellings has one entry for each word. -/
theorem lookup_keywords_iff : keywords.lookup word = some keyword ↔ (word, keyword) ∈ keywords := by
  constructor
  · intro h
    obtain ⟨front, back, hsplit, -⟩ := List.lookup_eq_some_iff.1 h
    exact hsplit ▸ List.mem_append_right front List.mem_cons_self
  · intro h
    have hall : ∀ k ∈ keywords, keywords.lookup k.1 = some k.2 := by decide +kernel
    exact hall (word, keyword) h

/-- What is replaced is a name that is an old spelling, and no dot is before it. -/
theorem edit?_eq_some_iff : edit? previous t = some e ↔
    e.1 = t ∧ t.kind = .identifier ∧ previous ≠ some .dot ∧ (t.text, e.2) ∈ keywords := by
  unfold edit?
  constructor
  · intro h
    split at h
    · rename_i hplace
      obtain ⟨keyword, hlookup, rfl⟩ := Option.map_eq_some_iff.1 h
      simp only [Bool.and_eq_true, decide_eq_true_eq] at hplace
      exact ⟨rfl, hplace.1, hplace.2, lookup_keywords_iff.1 hlookup⟩
    · cases h
  · rintro ⟨rfl, hkind, hprevious, hmem⟩
    rw [if_pos (by simp [hkind, hprevious]), lookup_keywords_iff.2 hmem]
    rfl

/-- An old spelling starts with a letter. -/
theorem isAlpha_of_old (h : (word, keyword) ∈ keywords) :
    ∃ a cs, word.toList = a :: cs ∧ a.isAlpha = true := by
  have hall : ∀ k ∈ keywords, (k.1.toList.head?.any Char.isAlpha) = true := by decide +kernel
  have hhead := hall (word, keyword) h
  cases hword : word.toList with
  | nil => simp [hword] at hhead
  | cons a cs => exact ⟨a, cs, rfl, by simpa [hword] using hhead⟩

/-- A keyword is a word of letters that is in no number. -/
theorem foreign_of_mem (h : (word, keyword) ∈ keywords) : Foreign keyword.toList := by
  have hall : ∀ k ∈ keywords, k.2.toList.all Char.isAlpha = true ∧
      k.2.toList.head?.all (fun a => a.toLower ∉ ['e', 'x']) = true ∧
      k.2.toList.any (fun a => a.toLower ∉ numberLetters) = true := by decide +kernel
  obtain ⟨halpha, hfirst, hodd⟩ := hall (word, keyword) h
  refine ⟨List.all_eq_true.1 halpha, fun a ha => ?_, ?_⟩
  · rw [show keyword.toList.head? = some a from ha] at hfirst
    simpa using hfirst
  · simpa using hodd

/-- A new spelling begins with a letter. -/
theorem isAlpha_of_keyword (h : (word, keyword) ∈ keywords) :
    ∃ a cs, keyword.toList = a :: cs ∧ a.isAlpha = true := by
  have hforeign := foreign_of_mem h
  obtain ⟨a, cs, hcs⟩ := List.exists_cons_of_ne_nil hforeign.ne_nil
  exact ⟨a, cs, hcs, hforeign.alpha a (hcs ▸ List.mem_cons_self)⟩

/-- No end of a keyword is an old spelling, and none is too long for a name. -/
theorem lookup_of_suffix (h : (word, keyword) ∈ keywords) (hleft : left <:+ keyword.toList) :
    keywords.lookup (String.ofList left) = none ∧ left.length ≤ Limits.identifierLength := by
  have hall : ∀ k ∈ keywords, ∀ left ∈ k.2.toList.tails, keywords.lookup (String.ofList left) = none ∧
      left.length ≤ Limits.identifierLength := by decide +kernel
  exact hall (word, keyword) h left ((List.mem_tails _ _).2 hleft)

/-- No keyword stands for a symbol. -/
theorem ofWord?_of_mem (h : (word, keyword) ∈ keywords) : TokenKind.ofWord? keyword = none := by
  have hall : ∀ k ∈ keywords, TokenKind.ofWord? k.2 = none := by decide +kernel
  exact hall (word, keyword) h

/-! ## §2. What is replaced. -/

/-- An old spelling among the tokens of a text, and its keyword: a name that no dot is before. -/
def IsOld (tokens : List Token) (t : Token) (keyword : String) : Prop :=
  ∃ front back, tokens = front ++ t :: back ∧ t.kind = .identifier ∧ (t.text, keyword) ∈ keywords ∧
    ∀ before ∈ front.getLast?, before.kind ≠ .dot

/-- An identifier is replaced if it is an old spelling and not behind a dot. -/
theorem mem_editsFrom_iff : (t, keyword) ∈ editsFrom previous tokens ↔
    ∃ front back, tokens = front ++ t :: back ∧ t.kind = .identifier ∧ (t.text, keyword) ∈ keywords ∧
      (front.getLast?.map Token.kind).or previous ≠ some .dot := by
  induction tokens generalizing previous with
  | nil => simp [editsFrom]
  | cons s ts ih =>
    -- Of what stands before a token only the kind of the last one matters.
    have hlast : ∀ front : List Token, ((s :: front).getLast?.map Token.kind).or previous =
        (front.getLast?.map Token.kind).or (some s.kind) := by
      intro front
      rw [List.getLast?_cons]
      cases front.getLast? <;> rfl
    rw [editsFrom, List.mem_append, Option.mem_toList, edit?_eq_some_iff, ih]
    constructor
    · rintro (⟨rfl, hkind, hprevious, hmem⟩ | ⟨front, back, rfl, hkind, hmem, hprevious⟩)
      · exact ⟨[], ts, rfl, hkind, hmem, hprevious⟩
      · exact ⟨s :: front, back, rfl, hkind, hmem, by rwa [hlast]⟩
    · rintro ⟨front, back, hsplit, hkind, hmem, hprevious⟩
      cases front with
      | nil =>
        obtain ⟨rfl, -⟩ := List.cons.inj hsplit
        exact .inl ⟨rfl, hkind, hprevious, hmem⟩
      | cons s' front =>
        obtain ⟨rfl, rfl⟩ := List.cons.inj hsplit
        exact .inr ⟨front, back, rfl, hkind, hmem, by rwa [hlast] at hprevious⟩

/-- **What is replaced in a text are its old spellings.** -/
theorem mem_edits_iff : (t, keyword) ∈ edits tokens ↔ IsOld tokens t keyword := by
  have hlast : ∀ front : List Token, (front.getLast?.map Token.kind).or none ≠ some .dot ↔
      ∀ before ∈ front.getLast?, before.kind ≠ .dot := by
    intro front
    cases front.getLast? <;> simp
  simp only [edits_eq, mem_editsFrom_iff, hlast, IsOld]

/-! ## §3. Where it stands. -/

/-- Tokens of characters that stand at the offset are replaced, one after the other, and all else is
kept. -/
inductive Replaced : Nat → List Edit → List Char → List Char → Prop where
  | nil {offset : Nat} {rest : List Char} : Replaced offset [] rest rest
  | cons {offset : Nat} {gap rest rest' : List Char} {e : Edit} {es : List Edit}
      (hstart : e.1.start = offset + byteSize gap) (h : Replaced e.1.stop es rest rest') :
      Replaced offset (e :: es) (gap ++ (e.1.text.toList ++ rest)) (gap ++ (e.2.toList ++ rest'))

/-- What is not replaced stands between the others. -/
theorem Replaced.skip {front : List Char} (h : Replaced (offset + byteSize front) es rest rest') :
    Replaced offset es (front ++ rest) (front ++ rest') := by
  cases h with
  | nil => exact .nil
  | @cons _ gap _ _ e _ hstart h =>
    have hfront : e.1.start = offset + byteSize (front ++ gap) := by rw [hstart, byteSize_append, Nat.add_assoc]
    simpa only [List.append_assoc] using Replaced.cons hfront h

/-- The new text is what becomes of the old one. -/
theorem Replaced.text_eq (h : Replaced offset es rest rest') (written : String) :
    (es.foldl Draft.apply ⟨written, rest, offset⟩).text = written ++ String.ofList rest' := by
  induction h generalizing written with
  | nil => rfl
  | cons hstart _ ih =>
    rw [List.foldl_cons, apply_of_fits hstart, ih, String.append_assoc, String.append_assoc]
    simp

/-! ## §4. Token by token. -/

/-- What becomes of characters, token by token. -/
inductive Rewrites : Option TokenKind → Nat → List Char → List Token → List Char → Prop where
  /-- The end is kept, and the blanks before it. -/
  | finish {previous : Option TokenKind} {offset : Nat} {cs : List Char} {t : Token}
      (hread : token previous offset cs = .ok (t, [])) (ht : t.kind = .finish) : Rewrites previous offset cs [t] cs
  /-- Any other token is kept if it is no old spelling. -/
  | kept {previous : Option TokenKind} {offset : Nat} {blanks rest rest' : List Char} {t : Token} {ts : List Token}
      (hread : token previous offset (blanks ++ (t.text.toList ++ rest)) = .ok (t, rest)) (ht : t.kind ≠ .finish)
      (hblank : ∀ c ∈ blanks, isBlank c = true) (hedit : edit? previous t = none)
      (h : Rewrites (some t.kind) t.stop rest ts rest') :
      Rewrites previous offset (blanks ++ (t.text.toList ++ rest)) (t :: ts) (blanks ++ (t.text.toList ++ rest'))
  /-- For an old spelling its keyword is written. -/
  | replaced {previous : Option TokenKind} {offset : Nat} {blanks rest rest' : List Char} {t : Token}
      {ts : List Token} {keyword : String}
      (hread : token previous offset (blanks ++ (t.text.toList ++ rest)) = .ok (t, rest))
      (hblank : ∀ c ∈ blanks, isBlank c = true) (hedit : edit? previous t = some (t, keyword))
      (h : Rewrites (some t.kind) t.stop rest ts rest') :
      Rewrites previous offset (blanks ++ (t.text.toList ++ rest)) (t :: ts) (blanks ++ (keyword.toList ++ rest'))

/-- **Something becomes of all characters that are made of tokens.** -/
theorem rewrites_of_tokenizes (h : Tokenizes previous offset cs ts) :
    ∃ cs', Rewrites previous offset cs ts cs' := by
  induction h with
  | @finish previous offset cs _ t hread ht =>
    rcases token_cases hread with ⟨-, -, rfl⟩ | ⟨c, tail, kind, lexeme, -, hlexeme, rfl, -⟩
    · exact ⟨cs, .finish hread ht⟩
    · exact absurd ht (lexeme_isPrefix hlexeme).2
  | @next previous _ _ rest t _ hread ht _ ih =>
    obtain ⟨rest', ih⟩ := ih
    obtain ⟨blanks, hblank, rfl⟩ := exists_blanks_of_token hread ht
    cases hedit : edit? previous t with
    | none => exact ⟨_, .kept hread ht hblank hedit ih⟩
    | some e =>
      obtain ⟨s, keyword⟩ := e
      obtain rfl : s = t := eq_of_edit? hedit
      exact ⟨_, .replaced hread hblank hedit ih⟩

/-- **Nothing but old spellings is replaced.** -/
theorem Rewrites.replaced_edits (h : Rewrites previous offset cs ts cs') :
    Replaced offset (editsFrom previous ts) cs cs' := by
  induction h with
  | finish _ ht =>
    rw [editsFrom, edit?_of_kind (by simp [ht])]
    exact .nil
  | kept hread _ _ hedit _ ih =>
    rw [editsFrom, hedit, ← List.append_assoc, ← List.append_assoc]
    refine Replaced.skip ?_
    rw [byteSize_append, byteSize_toList, ← Nat.add_assoc, ← start_after_blanks hread]
    exact ih
  | replaced hread _ hedit _ ih =>
    rw [editsFrom, hedit]
    exact .cons (start_after_blanks hread) ih

/-! ## §5. The start of the new text. -/

/-- An old spelling stands at the very start of the characters. -/
inductive StartsOld : Option TokenKind → Nat → List Char → List Token → List Char → Prop where
  | mk {previous : Option TokenKind} {offset : Nat} {t : Token} {rest rest' : List Char} {ts : List Token}
      {keyword : String} (hedit : edit? previous t = some (t, keyword)) (hstart : t.start = offset) :
      StartsOld previous offset (t.text.toList ++ rest) (t :: ts) (keyword.toList ++ rest')

/-- **The new text starts as the old one does**, or with a keyword for an old spelling. -/
theorem Rewrites.start (h : Rewrites previous offset cs ts cs') :
    SameStart cs cs' ∨ StartsOld previous offset cs ts cs' := by
  -- By the first token: if it is kept, so is its first character.
  induction h with
  | finish => exact .inl ⟨rfl, fun _ => rfl⟩
  | @kept previous offset blanks rest rest' t ts hread ht hblank _ _ ih =>
    refine .inl ?_
    by_cases hne : blanks = []
    · subst hne
      obtain ⟨c, lexeme, hlexeme, -⟩ := head_of_token hread ht
      rw [List.nil_append, List.nil_append, hlexeme]
      refine ⟨rfl, fun hdot => ?_⟩
      -- Behind the dot, the next token is a member, which is kept.
      obtain rfl : c = '.' := by simpa using hdot
      obtain ⟨hkind, rfl⟩ := dot_of_token hread hlexeme
      rcases ih with ⟨hhead, -⟩ | hold
      · simpa using hhead
      · cases hold with
        | mk hedit => exact absurd (congrArg some hkind) (edit?_eq_some_iff.1 hedit).2.2.1
    · exact sameStart_of_blanks hblank hne
  | @replaced previous offset blanks rest rest' t ts keyword hread hblank hedit _ _ =>
    by_cases hne : blanks = []
    · subst hne
      exact .inr (.mk hedit (start_after_blanks hread))
    · exact .inl (sameStart_of_blanks hblank hne)

/-- **A token that is kept is read again** before what becomes of the characters after it, if it is no
number that an old spelling comes right after. -/
theorem token_kept (hread : token previous offset (blanks ++ (t.text.toList ++ rest)) = .ok (t, rest))
    (h : SameStart rest rest' ∨ t.kind.isNumber = false ∧ StartsOld (some t.kind) t.stop rest ts rest')
    (hprevious : previous' = some .dot ↔ previous = some .dot) (offset' : Nat) :
    ∃ t' : Token, t'.face = t.face ∧
      token previous' offset' (blanks ++ (t.text.toList ++ rest')) = .ok (t', rest') := by
  rw [← token_previous hprevious, ← List.append_assoc] at hread
  have hkept : token previous' offset ((blanks ++ t.text.toList) ++ rest') = .ok (t, rest') := by
    rcases h with hsame | ⟨hnumber, hold⟩
    · exact token_of_sameStart hread hsame
    · cases hold with
      | mk hedit =>
        obtain ⟨-, -, -, hmem⟩ := edit?_eq_some_iff.1 hedit
        obtain ⟨a, word, hword, ha⟩ := isAlpha_of_old hmem
        obtain ⟨a', keyword, hkeyword, ha'⟩ := isAlpha_of_keyword hmem
        simp only [hword, hkeyword, List.cons_append] at hread ⊢
        exact token_before_word (class_of_isAlpha ha).2.2.2.1 (class_of_isAlpha ha').2.2.2.2.2 hread hnumber
  rw [← List.append_assoc]
  exact token_elsewhere hkept offset'

/-- No letter comes after a keyword that is written for an old spelling. -/
theorem isWordChar_after_keyword (hread : token previous offset cs = .ok (t, rest)) (hkind : t.kind = .identifier)
    (h : Rewrites (some t.kind) t.stop rest ts rest') : ∀ a ∈ rest'.head?, isWordChar a = false := by
  have hafter := isWordChar_after_name hread hkind
  rcases h.start with ⟨hhead, -⟩ | hold
  · rwa [← hhead]
  · -- The old spelling would have been read with the first one as one name.
    cases hold with
    | mk hedit =>
      obtain ⟨-, -, -, hmem⟩ := edit?_eq_some_iff.1 hedit
      obtain ⟨a, word, hword, ha⟩ := isAlpha_of_old hmem
      have hend := hafter a (by rw [hword]; rfl)
      cases hend.symm.trans (class_of_isAlpha ha).2.2.2.1

/-- An end of a keyword is a word. -/
theorem token_of_suffix (hmem : (word, keyword) ∈ keywords) (hleft : left <:+ keyword.toList) (hne : left ≠ [])
    (hblank : ∀ c ∈ blanks, isBlank c = true) (hrest : ∀ a ∈ rest.head?, isWordChar a = false)
    (previous : Option TokenKind) (offset : Nat) :
    token previous offset (blanks ++ (left ++ rest)) = .ok
      (⟨wordKind previous (String.ofList left), String.ofList left, offset + byteSize blanks⟩, rest) := by
  rw [token_blank hblank]
  have halpha : ∀ a ∈ left, a.isAlpha = true := fun a ha => (foreign_of_mem hmem).alpha a (hleft.subset ha)
  exact token_of_word hne halpha (lookup_of_suffix hmem hleft).2 hrest previous _

/-! ## §6. Nothing is left to replace. -/

/-- The characters are made of tokens, and none of them is replaced. -/
def Quiet (previous : Option TokenKind) (offset : Nat) (cs : List Char) : Prop :=
  ∃ ts, Tokenizes previous offset cs ts ∧ editsFrom previous ts = []

/-- A text is left as it is if its first token is and the rest is. -/
theorem Quiet.next (hread : token previous offset cs = .ok (t, rest)) (ht : t.kind ≠ .finish)
    (hedit : edit? previous t = none) (h : Quiet (some t.kind) t.stop rest) : Quiet previous offset cs := by
  obtain ⟨ts, htokens, hnone⟩ := h
  refine ⟨t :: ts, .next hread ht htokens, ?_⟩
  rw [editsFrom, hedit, hnone]
  rfl

/-- An end of a keyword is no old spelling. -/
theorem Quiet.suffix (hmem : (word, keyword) ∈ keywords) (hleft : left <:+ keyword.toList) (hne : left ≠ [])
    (hblank : ∀ c ∈ blanks, isBlank c = true) (hrest : ∀ a ∈ rest.head?, isWordChar a = false)
    (h : ∀ (kind : TokenKind) (offset : Nat), kind ≠ .dot → Quiet (some kind) offset rest) :
    Quiet previous offset (blanks ++ (left ++ rest)) := by
  have hread := token_of_suffix hmem hleft hne hblank hrest previous offset
  refine .next hread (wordKind_ne (by decide) _ _) ?_ (h _ _ (wordKind_ne (by decide) _ _))
  simp [edit?, (lookup_of_suffix hmem hleft).1]

/-- A number takes the start of a keyword right after it for its own. -/
theorem Quiet.number (hread : token previous offset cs = .ok (t, rest)) (hnumber : t.kind.isNumber = true)
    (hmem : (word, keyword) ∈ keywords) (hblank : ∀ c ∈ blanks, isBlank c = true) {offset' : Nat}
    (h : ∀ (kind : TokenKind) (offset : Nat) (left : List Char), kind.isNumber = true →
      left <:+ keyword.toList → left ≠ [] → Quiet (some kind) offset (left ++ rest')) :
    Quiet previous' offset' (blanks ++ (t.text.toList ++ (keyword.toList ++ rest'))) := by
  obtain ⟨t', taken, left, hsplit, hne, hnumber', hread'⟩ :=
    token_number_before_word hread hnumber (foreign_of_mem hmem) hblank previous' offset' rest'
  refine .next hread' (ne_of_isNumber hnumber' rfl) (edit?_of_kind (ne_of_isNumber hnumber' rfl) _) ?_
  exact h _ _ left hnumber' ⟨taken, hsplit.symm⟩ hne

/-- Where a keyword comes first, no blanks come before it. -/
theorem eq_of_keyword_start (hmem : (word, keyword) ∈ keywords) (hblank : ∀ c ∈ blanks, isBlank c = true)
    (h : blanks ++ (keyword.toList ++ rest) = keyword.toList ++ rest') : rest = rest' := by
  cases blanks with
  | nil => exact List.append_cancel_left h
  | cons b blanks =>
    obtain ⟨a, cs, hcs, ha⟩ := isAlpha_of_keyword hmem
    rw [hcs] at h
    obtain ⟨rfl, -⟩ := List.cons.inj h
    cases (hblank b List.mem_cons_self).symm.trans (class_of_isAlpha ha).1

/-- Whether a token is replaced does not depend on where it stands. -/
theorem edit?_congr {t' : Token} (hface : t'.face = t.face)
    (hprevious : previous' = some .dot ↔ previous = some .dot) (hedit : edit? previous t = none) :
    edit? previous' t' = none := by
  obtain ⟨hkind, htext⟩ := Prod.mk.inj hface
  refine Option.eq_none_iff_forall_ne_some.2 fun e he => ?_
  obtain ⟨-, hname, hdot, hmem⟩ := edit?_eq_some_iff.1 he
  rw [hkind] at hname
  rw [htext] at hmem
  have hsome : edit? previous t = some (t, e.2) :=
    edit?_eq_some_iff.2 ⟨rfl, hname, fun h => hdot (hprevious.2 h), hmem⟩
  cases hedit.symm.trans hsome

/-- What is read of the new text: all of it, or, behind a number that took the start of a keyword for its
own, what is left of that. -/
inductive Left : Option TokenKind → List Token → List Char → List Char → Prop where
  | all {previous : Option TokenKind} {ts : List Token} {cs' : List Char} : Left previous ts cs' cs'
  | cut {previous : Option TokenKind} {t : Token} {ts : List Token} {cs' left rest' : List Char} {keyword : String}
      (hedit : edit? previous t = some (t, keyword)) (hcs' : cs' = keyword.toList ++ rest')
      (hleft : left <:+ keyword.toList) (hne : left ≠ []) : Left previous (t :: ts) cs' (left ++ rest')

/-- **Nothing in the new text is replaced.** -/
theorem quiet_of_rewrites (h : Rewrites previous offset cs ts cs') {read : List Char}
    (hread : Left previous ts cs' read) (hprevious : previous' = some .dot ↔ previous = some .dot)
    (offset' : Nat) : Quiet previous' offset' read := by
  -- Token by token along the new text; `Left` says what is still to be read of it.
  induction h generalizing previous' offset' read with
  | @finish previous offset cs t htoken ht =>
    cases hread with
    | all =>
      rw [← token_previous hprevious] at htoken
      obtain ⟨t', hface, htoken'⟩ := token_elsewhere htoken offset'
      have ht' : t'.kind = .finish := (Prod.mk.inj hface).1.trans ht
      exact ⟨[t'], .finish htoken' ht', by rw [editsFrom, edit?_of_kind (by simp [ht'])]; rfl⟩
    | cut hedit =>
      rw [edit?_of_kind (by simp [ht])] at hedit
      cases hedit
  | @kept previous offset blanks rest rest' t ts htoken ht hblank hedit htail ih =>
    cases hread with
    | cut hedit' => cases hedit.symm.trans hedit'
    | all =>
      by_cases hcut : t.kind.isNumber = true ∧ StartsOld (some t.kind) t.stop rest ts rest'
      · -- The number takes the start of the keyword for its own.
        obtain ⟨hnumber, hold⟩ := hcut
        cases hold with
        | mk hold =>
          obtain ⟨-, -, -, hmem⟩ := edit?_eq_some_iff.1 hold
          have hdot : ∀ {kind : TokenKind}, kind.isNumber = true → some kind ≠ some .dot :=
            fun hkind h => ne_of_isNumber hkind rfl (Option.some.inj h)
          exact .number htoken hnumber hmem hblank fun kind offset left hkind hleft hne =>
            ih (.cut hold rfl hleft hne) (iff_of_false (hdot hkind) (hdot hnumber)) offset
      · have hstart : SameStart rest rest' ∨
            t.kind.isNumber = false ∧ StartsOld (some t.kind) t.stop rest ts rest' :=
          htail.start.imp_right fun hold => ⟨by simpa [hold] using hcut, hold⟩
        obtain ⟨t', hface, htoken'⟩ := token_kept htoken hstart hprevious offset'
        have hkind : t'.kind = t.kind := (Prod.mk.inj hface).1
        refine .next htoken' (hkind ▸ ht) (edit?_congr hface hprevious hedit) ?_
        exact ih .all (by rw [hkind]) _
  | @replaced previous offset blanks rest rest' t ts keyword htoken hblank hedit htail ih =>
    -- A new spelling is no old one, whether it is read whole or after its start was taken.
    obtain ⟨-, hname, -, hmem⟩ := edit?_eq_some_iff.1 hedit
    have hrest := isWordChar_after_keyword htoken hname htail
    have htail' : ∀ (kind : TokenKind) (offset : Nat), kind ≠ .dot → Quiet (some kind) offset rest' :=
      fun kind offset hdot => ih .all (by simp [hname, hdot]) offset
    cases hread with
    | all => exact .suffix hmem (List.suffix_refl _) (foreign_of_mem hmem).ne_nil hblank hrest htail'
    | cut hedit' hcs' hleft hne =>
      cases hedit.symm.trans hedit'
      obtain rfl := eq_of_keyword_start hmem hblank hcs'
      exact .suffix hmem hleft hne (List.forall_mem_nil _) hrest htail'

example : replace? "1single" = some "1float" ∧ replace? "1float" = none := by decide +kernel

/-! ## §7. Where no number is before an old spelling. -/

/-- An old spelling comes right after a number. -/
def Abuts (tokens : List Token) : Prop :=
  ∃ (number old : Token) (keyword : String), [number, old] <:+: tokens ∧ number.kind.isNumber = true ∧
    old.kind = .identifier ∧ (old.text, keyword) ∈ keywords ∧ number.stop = old.start

/-- What tokens are with keywords for the old spellings among them. -/
def respelled : Option TokenKind → List Token → List (TokenKind × String)
  | _, [] => []
  | previous, t :: ts => (t.kind, ((edit? previous t).map Prod.snd).getD t.text) :: respelled (some t.kind) ts

/-- If no number abuts on an old spelling, then none does further on. -/
theorem not_abuts_tail (h : ¬ Abuts (t :: ts)) : ¬ Abuts ts :=
  fun ⟨number, old, keyword, hinfix, hold⟩ =>
    h ⟨number, old, keyword, hinfix.trans (List.suffix_cons t ts).isInfix, hold⟩

/-- Where no number is before an old spelling, a token is kept. -/
theorem Rewrites.start_of_not_abuts (h : Rewrites (some t.kind) t.stop rest ts rest')
    (habuts : ¬ Abuts (t :: ts)) :
    SameStart rest rest' ∨ t.kind.isNumber = false ∧ StartsOld (some t.kind) t.stop rest ts rest' := by
  refine h.start.imp_right fun hold => ⟨Bool.eq_false_iff.2 fun hnumber => habuts ?_, hold⟩
  cases hold with
  | @mk old _ _ ts keyword hedit hstart =>
    obtain ⟨-, hname, -, hmem⟩ := edit?_eq_some_iff.1 hedit
    exact ⟨t, old, keyword, ⟨[], ts, rfl⟩, hnumber, hname, hmem, hstart.symm⟩

/-- **The tokens of the new text are those of the old one**, with keywords for old spellings. -/
theorem faces_of_rewrites (h : Rewrites previous offset cs ts cs') (habuts : ¬ Abuts ts)
    (hprevious : previous' = some .dot ↔ previous = some .dot) (offset' : Nat) :
    ∃ ts', Tokenizes previous' offset' cs' ts' ∧ ts'.map Token.face = respelled previous ts := by
  -- Token by token; without a number before an old spelling each token is read as it was.
  induction h generalizing previous' offset' with
  | @finish previous offset cs t hread ht =>
    rw [← token_previous hprevious] at hread
    obtain ⟨t', hface, hread'⟩ := token_elsewhere hread offset'
    have ht' : t'.kind = .finish := (Prod.mk.inj hface).1.trans ht
    refine ⟨[t'], .finish hread' ht', ?_⟩
    rw [respelled, respelled, edit?_of_kind (by simp [ht]), List.map_singleton, hface]
    rfl
  | @kept previous offset blanks rest rest' t ts hread ht hblank hedit htail ih =>
    obtain ⟨t', hface, hread'⟩ := token_kept hread (htail.start_of_not_abuts habuts) hprevious offset'
    have hkind : t'.kind = t.kind := (Prod.mk.inj hface).1
    have hdot : some t'.kind = some .dot ↔ some t.kind = some .dot := by rw [hkind]
    obtain ⟨ts', htokens, hfaces⟩ := ih (not_abuts_tail habuts) hdot t'.stop
    refine ⟨t' :: ts', .next hread' (hkind ▸ ht) htokens, ?_⟩
    rw [respelled, hedit, List.map_cons, hface, hfaces]
    rfl
  | @replaced previous offset blanks rest rest' t ts keyword hread hblank hedit htail ih =>
    obtain ⟨-, hname, -, hmem⟩ := edit?_eq_some_iff.1 hedit
    have hread' := token_of_suffix hmem (List.suffix_refl _) (foreign_of_mem hmem).ne_nil hblank
      (isWordChar_after_keyword hread hname htail) previous' offset'
    have hkind : wordKind previous' keyword = .identifier := by
      rw [wordKind, ofWord?_of_mem hmem]
      split <;> rfl
    rw [String.ofList_toList, hkind] at hread'
    obtain ⟨ts', htokens, hfaces⟩ := ih (not_abuts_tail habuts) (by rw [hname]) (Token.stop _)
    refine ⟨_ :: ts', .next hread' (by simp) htokens, ?_⟩
    rw [respelled, hedit, List.map_cons, hfaces, hname]
    rfl

/-! ## §8. Old spellings of a text. -/

/-- Nothing is replaced where no token is an old spelling. -/
theorem edits_eq_nil_iff : edits tokens = [] ↔ ∀ t keyword, ¬ IsOld tokens t keyword := by
  simp only [← mem_edits_iff, List.eq_nil_iff_forall_not_mem, Prod.forall]

/-- No new text is made where the tokens cannot be read, and where there is nothing to replace. -/
theorem replace?_eq_none_iff {text : String} : replace? text = none ↔
    (∃ fault, tokenize text = .error fault) ∨ ∃ tokens, tokenize text = .ok tokens ∧ edits tokens = [] := by
  unfold replace?
  cases tokenize text with
  | error fault => simp
  | ok tokens =>
    dsimp only
    split
    · rename_i hnone
      simp [hnone]
    · rename_i hsome
      simpa using hsome

/-- A text that is quiet is left as it is. -/
theorem replace?_of_quiet {text : String} (h : Quiet none 0 text.toList) : replace? text = none := by
  obtain ⟨tokens, htokens, hnone⟩ := h
  exact replace?_eq_none_iff.2 (.inr ⟨tokens, tokenize_eq_ok_iff.2 htokens, by rw [edits_eq, hnone]⟩)

/-- **The new text has keywords for the old spellings and is the old text else, and nothing in it is
replaced.**  Its tokens are those of the old text, if none of the old spellings comes right after a number. -/
theorem legacy_rewriting (text : String) :
    (replace? text = none ↔ text = "" ∨ (∃ fault, tokenize text = .error fault) ∨
      ∃ tokens, tokenize text = .ok tokens ∧ ∀ t keyword, ¬ IsOld tokens t keyword) ∧
    ∀ new, replace? text = some new → ∃ tokens es, tokenize text = .ok tokens ∧
      (∀ t keyword, (t, keyword) ∈ es ↔ IsOld tokens t keyword) ∧
      Replaced 0 es text.toList new.toList ∧ replace? new = none ∧
      (¬ Abuts tokens → ∃ tokens', tokenize new = .ok tokens' ∧
        tokens'.map Token.face = respelled none tokens) := by
  constructor
  · have hempty : replace? "" = none := by decide +kernel
    rw [replace?_eq_none_iff] at hempty ⊢
    simp only [← edits_eq_nil_iff]
    exact ⟨.inr, fun h => h.elim (fun h => h ▸ hempty) id⟩
  · intro new hnew
    obtain ⟨tokens, htokens, -, rfl⟩ := replace?_eq_some_iff.1 hnew
    -- The new text as a relation to the tokens of the old one, from which the rest is told.
    obtain ⟨cs', hrewrites⟩ := rewrites_of_tokenizes (tokenize_eq_ok_iff.1 htokens)
    have hreplaced : Replaced 0 (edits tokens) text.toList cs' := edits_eq tokens ▸ hrewrites.replaced_edits
    rw [hreplaced.text_eq, String.empty_append]
    refine ⟨tokens, edits tokens, htokens, fun _ _ => mem_edits_iff, ?_, replace?_of_quiet ?_, fun habuts => ?_⟩
    · rwa [String.toList_ofList]
    · rw [String.toList_ofList]
      exact quiet_of_rewrites hrewrites .all Iff.rfl 0
    · obtain ⟨tokens', htokens', hfaces⟩ := faces_of_rewrites hrewrites habuts Iff.rfl 0
      exact ⟨tokens', tokenize_eq_ok_iff.2 (by rwa [String.toList_ofList]), hfaces⟩

theorem legacy_rewriting_of_guid : replace? "it.guid == guid" = some "it.guid == Guid" ∧
    replace? "it.guid == Guid" = none ∧ ∃ tokens, tokenize "it.guid == Guid" = .ok tokens ∧
      tokens.map Token.face = [(.identifier, "it"), (.dot, "."), (.identifier, "guid"), (.doubleEqual, "=="),
        (.identifier, "Guid"), (.finish, "")] := by
  have hnew : replace? "it.guid == guid" = some "it.guid == Guid" := by decide +kernel
  have hread : tokenize "it.guid == guid" = .ok [⟨.identifier, "it", 0⟩, ⟨.dot, ".", 2⟩, ⟨.identifier, "guid", 3⟩,
      ⟨.doubleEqual, "==", 8⟩, ⟨.identifier, "guid", 11⟩, .finish 15] := by decide +kernel
  obtain ⟨tokens, -, htokens, -, -, hnone, hfaces⟩ := (legacy_rewriting "it.guid == guid").2 _ hnew
  cases htokens.symm.trans hread
  refine ⟨hnew, hnone, hfaces ?_⟩
  rintro ⟨number, old, keyword, hinfix, hnumber, -⟩
  have hmem := hinfix.subset (List.mem_cons_self : number ∈ [number, old])
  simp only [List.mem_cons, List.not_mem_nil, or_false] at hmem
  rcases hmem with rfl | rfl | rfl | rfl | rfl | rfl <;> cases hnumber

end TypeAhead.Legacy
