/-
  TypeAhead.Proofs.Respelling — OLD SPELLINGS ARE REPLACED WHERE THEY STAND.

  What is to be replaced in a text are some of its tokens, one after the other, so
  each of them is found behind the one before it.  What comes after the last of them
  is kept as it is, and so are blanks behind the text.

      fits_edits           the tokens to be replaced, and what is between them
      replace?_trailing    a text with blanks behind it
-/
import TypeAhead.Legacy
import TypeAhead.Proofs.Token.Trailing

namespace TypeAhead.Legacy

open Text

/-! ## §1. What is to be replaced. -/

/-- What is to be replaced among tokens, given the kind of the token before the first one. -/
def editsFrom : Option TokenKind → List Token → List Edit
  | _, [] => []
  | previous, t :: ts => (edit? previous t).toList ++ editsFrom (some t.kind) ts

theorem edits_eq (tokens : List Token) : edits tokens = editsFrom none tokens := by
  have h : ∀ (previous : Option TokenKind) (tokens : List Token),
      ((previous :: tokens.map fun t => some t.kind).zip tokens).filterMap
        (fun read => edit? read.1 read.2) = editsFrom previous tokens := by
    intro previous tokens
    induction tokens generalizing previous with
    | nil => rfl
    | cons t ts ih =>
      rw [List.map_cons, List.zip_cons_cons, List.filterMap_cons, ih, editsFrom]
      dsimp only
      cases edit? previous t <;> rfl
  exact h none tokens

/-- Only names are replaced. -/
theorem edit?_of_kind {t : Token} (h : t.kind ≠ .identifier) (previous : Option TokenKind) :
    edit? previous t = none := by
  simp [edit?, h]

theorem eq_of_edit? {previous : Option TokenKind} {t : Token} {e : Edit}
    (h : edit? previous t = some e) : e.1 = t := by
  unfold edit? at h
  split at h
  · obtain ⟨keyword, -, rfl⟩ := Option.map_eq_some_iff.1 h
    rfl
  · cases h

theorem editsFrom_concat (previous : Option TokenKind) (ts : List Token) {t : Token}
    (h : t.kind ≠ .identifier) : editsFrom previous (ts ++ [t]) = editsFrom previous ts := by
  induction ts generalizing previous with
  | nil => simp [editsFrom, edit?_of_kind h]
  | cons s ts ih => rw [List.cons_append, editsFrom, editsFrom, ih]

/-! ## §2. Where it stands. -/

/-- The tokens to be replaced stand in the text, which starts at the offset, one after the other. -/
inductive Fits : Nat → List Char → List Edit → Prop where
  | nil {offset : Nat} {rest : List Char} : Fits offset rest []
  | cons {offset : Nat} {gap rest : List Char} {e : Edit} {es : List Edit}
      (hstart : e.1.start = offset + byteSize gap) (h : Fits e.1.stop rest es) :
      Fits offset (gap ++ (e.1.text.toList ++ rest)) (e :: es)

/-- What is not replaced stands between the others. -/
theorem Fits.skip {offset : Nat} {front rest : List Char} {es : List Edit}
    (h : Fits (offset + byteSize front) rest es) : Fits offset (front ++ rest) es := by
  cases h with
  | nil => exact .nil
  | cons hstart h =>
    rw [← List.append_assoc]
    exact .cons (by rw [hstart, byteSize_append, Nat.add_assoc]) h

theorem fits_of_after {c : Cursor} {ts : List Token} (h : After c ts) {size offset : Nat}
    {previous : Option TokenKind} {rest : List Char}
    (hread : Cursor.read size previous offset rest = .ok c) (before : Option TokenKind) :
    Fits offset rest (editsFrom before (c.current :: ts)) := by
  -- On the tokens ahead; `rest` is what is left of the text before the first of them.
  induction h generalizing size offset previous rest before with
  | @finish c hc =>
    have hkind : c.current.kind = .finish := Token.isFinish_iff.1 hc
    rw [editsFrom, edit?_of_kind (by simp [hkind])]
    exact .nil
  | @next c d ts hc hnext h ih =>
    obtain ⟨-, hoffset, htoken⟩ := Cursor.read_eq_ok hread
    rw [Cursor.next_of_not_finish hc] at hnext
    have hrest := ih hnext (some c.current.kind)
    rw [hoffset] at hrest
    cases Scan.token_splits htoken with
    | finish hkind => simp [Token.isFinish, hkind] at hc
    | lexeme blanks lexeme _ hcs _ htext hstart =>
      have hlexeme : c.current.text.toList = lexeme := by rw [htext, String.toList_ofList]
      rw [editsFrom, hcs, ← hlexeme]
      cases hedit : edit? before c.current with
      | none =>
        -- The token is part of the gap before the next one that is replaced.
        refine Fits.skip ?_
        rw [byteSize_append, ← Nat.add_assoc, ← hstart, byteSize_toList]
        exact hrest
      | some e =>
        have he := eq_of_edit? hedit
        rw [← he] at hstart hrest ⊢
        rw [List.append_assoc]
        exact .cons hstart hrest

/-- **What is replaced in a text are tokens, one after the other.** -/
theorem fits_edits {text : String} {tokens : List Token} (h : tokenize text = .ok tokens) :
    Fits 0 text.toList (edits tokens) := by
  obtain ⟨c, ts, hopen, rfl, hafter⟩ := after_of_tokenize h
  rw [edits_eq]
  exact fits_of_after hafter hopen none

/-! ## §3. What is kept. -/

/-- What stands before a token is kept, and its keyword is written. -/
theorem apply_of_fits {e : Edit} {offset : Nat} {gap : List Char}
    (hstart : e.1.start = offset + byteSize gap) (written : String) (rest : List Char) :
    Draft.apply ⟨written, gap ++ (e.1.text.toList ++ rest), offset⟩ e =
      ⟨written ++ String.ofList gap ++ e.2, rest, e.1.stop⟩ := by
  have hgap : e.1.start - offset = byteSize gap := by omega
  have hstop : e.1.stop - e.1.start = byteSize e.1.text.toList := by
    rw [Token.stop, Nat.add_sub_cancel_left, byteSize_toList]
  simp only [Draft.apply, hgap, splitBytes?_append, hstop, dropBytes?_append, List.reverse_nil,
    List.nil_append, Option.getD_some]

/-- **What comes after the last token is kept.** -/
theorem text_append {offset : Nat} {rest : List Char} {es : List Edit} (h : Fits offset rest es)
    (written : String) (more : List Char) :
    (es.foldl Draft.apply ⟨written, rest ++ more, offset⟩).text =
      (es.foldl Draft.apply ⟨written, rest, offset⟩).text ++ String.ofList more := by
  induction h generalizing written with
  | nil => simp [Draft.text, String.append_assoc]
  | cons hstart _ ih =>
    rw [List.append_assoc, List.append_assoc, List.foldl_cons, List.foldl_cons,
      apply_of_fits hstart, apply_of_fits hstart]
    exact ih _

/-- What is replaced are the tokens of a text, and there are some. -/
theorem replace?_eq_some_iff {text spelled : String} : replace? text = some spelled ↔
    ∃ tokens, tokenize text = .ok tokens ∧ edits tokens ≠ [] ∧
      ((edits tokens).foldl Draft.apply { rest := text.toList }).text = spelled := by
  unfold replace?
  cases tokenize text with
  | error fault => simp
  | ok tokens =>
    dsimp only
    split
    · rename_i hnone
      simp [hnone]
    · rename_i hsome
      constructor
      · intro h
        exact ⟨tokens, rfl, hsome, Option.some.inj h⟩
      · rintro ⟨_, hsame, -, h⟩
        cases hsame
        exact congrArg some h

/-- **Blanks behind a text are kept behind the new one.** -/
theorem replace?_trailing {blanks : List Char} (hne : blanks ≠ [])
    (hblank : ∀ e ∈ blanks, isBlank e = true) (text : String) :
    replace? (text ++ String.ofList blanks) =
      (replace? text).map (· ++ String.ofList blanks) := by
  have htrailing := tokenize_trailing hne hblank text
  unfold replace?
  -- A text whose tokens cannot be read has no new spelling, with blanks or without.
  cases htokens : tokenize text with
  | error fault =>
    rw [htokens] at htrailing
    generalize tokenize (text ++ String.ofList blanks) = q at htrailing
    cases htrailing
    rfl
  | ok tokens =>
    have hfits := fits_edits htokens
    rw [htokens] at htrailing
    generalize tokenize (text ++ String.ofList blanks) = q at htrailing
    cases htrailing with
    | ok h =>
      obtain ⟨ts⟩ := h
      -- The end, which is later in the second text, is no name.
      have hedits : ∀ n, edits (ts ++ [.finish n]) = edits ts := fun n => by
        rw [edits_eq, edits_eq, editsFrom_concat none ts (by simp [Token.finish])]
      rw [hedits] at hfits
      simp only [hedits]
      split
      · rfl
      · rw [String.toList_append, String.toList_ofList, text_append hfits]
        rfl

end TypeAhead.Legacy
