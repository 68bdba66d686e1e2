/-
  TypeAhead.Proofs.Walk.Parentheses — A TEXT IN PARENTHESES.

  The tokens of a text are the same where it stands in parentheses: an opening
  parenthesis stands before them and, in the place of the end, a closing one.  That
  is one way to go on with the same tokens up to a closing parenthesis.

      Along                 the same tokens, from two places on
      enclosed              what they say of walks
      along_of_after        the tokens of a text, in parentheses
-/
import TypeAhead.Proofs.Token.Cut
import TypeAhead.Proofs.Walk.Enclosure

namespace TypeAhead

open Text

variable {c d e f g : Cursor}

/-! ## §1. The same tokens. -/

/-- The same tokens stand from `c` up to `e` and from `d` up to `g`, one of them at least. -/
inductive Along (e g : Cursor) : Cursor → Cursor → Prop where
  | last {c d : Cursor} (hc : c.current.isFinish = false) (hface : d.current.face = c.current.face)
      (hnext : c.next = .ok e) (hnext' : d.next = .ok g) : Along e g c d
  | more {c d c' d' : Cursor} (hc : c.current.isFinish = false) (hface : d.current.face = c.current.face)
      (hnext : c.next = .ok c') (hnext' : d.next = .ok d') (h : Along e g c' d') : Along e g c d

namespace Along

theorem face_eq (h : Along e g c d) : d.current.face = c.current.face := by
  cases h with
  | last _ hface => exact hface
  | more _ hface => exact hface

theorem isFinish_eq (h : Along e g c d) : c.current.isFinish = false ∧ d.current.isFinish = false := by
  have hc : c.current.isFinish = false := by
    cases h with
    | last hc => exact hc
    | more hc => exact hc
  refine ⟨hc, ?_⟩
  rw [Token.isFinish, (Prod.mk.inj h.face_eq).1]
  exact hc

theorem next {c' : Cursor} (h : Along e g c d) (hnext : c.next = .ok c') :
    ∃ d', d.next = .ok d' ∧ (Along e g c' d' ∨ c' = e ∧ d' = g) := by
  cases h with
  | last _ _ hlast hlast' =>
    cases hlast.symm.trans hnext
    exact ⟨g, hlast', .inr ⟨rfl, rfl⟩⟩
  | more _ _ hmore hmore' h =>
    cases hmore.symm.trans hnext
    exact ⟨_, hmore', .inl h⟩

theorem ahead_lt (h : Along e g c d) : e.ahead < c.ahead := by
  induction h with
  | last hc _ hnext => exact Cursor.ahead_next hc hnext
  | more hc _ hnext _ _ ih => exact Nat.lt_trans ih (Cursor.ahead_next hc hnext)

/-- How the first token is worded makes no difference to the others. -/
theorem replace {s t : Token} (h : Along e g c d) (hs : s.kind = c.current.kind) (hface : t.face = s.face) :
    Along e g { c with current := s } { d with current := t } := by
  obtain ⟨hc, hd⟩ := h.isFinish_eq
  have ht : t.kind = d.current.kind :=
    (Prod.mk.inj hface).1.trans (hs.trans (Prod.mk.inj h.face_eq).1.symm)
  have hnext : ({ c with current := s } : Cursor).next = c.next := Cursor.next_congr rfl rfl rfl hs hc
  have hnext' : ({ d with current := t } : Cursor).next = d.next := Cursor.next_congr rfl rfl rfl ht hd
  have hfinish : s.isFinish = false := by
    rw [Token.isFinish, hs]
    exact hc
  cases h with
  | last _ _ hlast hlast' => exact .last hfinish hface (hnext.trans hlast) (hnext'.trans hlast')
  | more _ _ hmore hmore' h => exact .more hfinish hface (hnext.trans hmore) (hnext'.trans hmore') h

/-- The end of a text that is read has no characters. -/
theorem text_of_finish (h : Along e g c d) (he : e.current.isFinish = true) : e.current.text = "" := by
  induction h with
  | @last c d hc _ hnext =>
    rw [Cursor.next_of_not_finish hc] at hnext
    cases Scan.token_splits (Cursor.read_eq_ok hnext).2.2 with
    | finish _ _ htext => exact htext
    | lexeme _ _ hkind =>
      rw [Token.isFinish, beq_iff_eq] at he
      exact absurd he hkind
  | more _ _ _ _ _ ih => exact ih

end Along

/-- **Tokens up to a closing parenthesis.** -/
def enclosed (e g : Cursor) (hcloses : g.current.kind = .closeParen)
    (htext : e.current.isFinish = true → e.current.text = "") : Enclosure .bracket false where
  twin := Along e g
  edge c d := c = e ∧ d = g
  level := e.ahead
  face_eq h := h.face_eq
  next h hnext := h.next hnext
  replace h hs hface := h.replace hs hface
  closes _ h := by
    rw [h.2, hcloses]
    rfl
  same := nofun
  member := nofun
  ahead_eq h := by rw [h.1]
  size_le := nofun
  text_of_finish h he := by
    rw [h.1] at he ⊢
    exact htext he

/-- In one text the tokens from `c` up to `e`; in the other one the same in parentheses, from `d` up
to `f`. -/
structure Parenthesized (c e d f : Cursor) : Prop where
  opens : d.current.kind = .openParen
  encloses : ∃ d' g, d.next = .ok d' ∧ Along e g c d' ∧ g.current.kind = .closeParen ∧ g.next = .ok f

/-! ## §2. Texts. -/

/-- Of the token before, only whether it is a dot makes a difference. -/
theorem Cursor.read_previous (previous previous' : Option TokenKind)
    (h : previous = some .dot ↔ previous' = some .dot) (size offset : Nat) (cs : List Char) :
    Cursor.read size previous offset cs = Cursor.read size previous' offset cs := by
  rw [Cursor.read, Cursor.read, Scan.token_previous h]

/-- A token before a closing parenthesis, at another place. -/
theorem token_before_paren {previous previous' : Option TokenKind} {start : Nat} {cs rest : List Char}
    {t : Token} (hprevious : previous' = some .dot ↔ previous = some .dot)
    (h : Scan.token previous start cs = .ok (t, rest)) (ht : t.isFinish = false) (n : Nat) (more : List Char) :
    Scan.token previous' (start + n) (cs ++ ')' :: more) = .ok (t.shift n, rest ++ ')' :: more) := by
  have hkind : t.kind ≠ .finish := Token.isFinish_eq_false_iff.1 ht
  have happend := Scan.token_append (show Scan.separates ')' = true by decide) more h hkind
  rw [Scan.token_previous hprevious, Scan.token_shift, happend]

/-- What stands where only blanks are left before a closing parenthesis. -/
theorem read_paren {blanks : List Char} (hblank : ∀ e ∈ blanks, isBlank e = true) (size offset : Nat)
    (previous : Option TokenKind) (more : List Char) :
    Cursor.read size previous offset (blanks ++ ')' :: more) = .ok ⟨size, offset + byteSize blanks + 1, more,
      ⟨.closeParen, ")", offset + byteSize blanks⟩⟩ := by
  rw [Cursor.read, Scan.token_blank hblank]
  rfl

/-- **The tokens of a text are the same before a closing parenthesis**, at another place. -/
theorem along_of_after {ts : List Token} (h : After c ts) (hc : c.current.isFinish = false)
    {size offset : Nat} {previous previous' : Option TokenKind} {cs : List Char}
    (hread : Cursor.read size previous offset cs = .ok c)
    (hprevious : previous' = some .dot ↔ previous = some .dot) (size' n : Nat) (more : List Char) :
    ∃ d e g, Cursor.read size' previous' (offset + n) (cs ++ ')' :: more) = .ok d ∧ Along e g c d ∧
      e.current.isFinish = true ∧ g.current.kind = .closeParen ∧
      g.next = Cursor.read size' (some .closeParen) (offset + n + byteSize cs + 1) more := by
  -- By induction on the tokens ahead; the last one stands before the closing parenthesis.
  induction h generalizing size offset previous previous' cs with
  | finish hfinish => exact absurd (hfinish.symm.trans hc) nofun
  | @next c c' ts _ hnext hafter ih =>
    obtain ⟨-, hoffset, htoken⟩ := Cursor.read_eq_ok hread
    have hstop : (c.current.shift n).stop = c.offset + n := by
      rw [hoffset]
      exact Nat.add_right_comm _ _ _
    have hbytes : c.offset + byteSize c.rest = offset + byteSize cs := by
      rw [hoffset]
      exact Scan.stop_of_token htoken
    -- The token is cut as before, since what follows it begins with the same character or the
    -- parenthesis.
    have hread' : Cursor.read size' previous' (offset + n) (cs ++ ')' :: more) =
        .ok ⟨size', c.offset + n, c.rest ++ ')' :: more, c.current.shift n⟩ := by
      rw [Cursor.read, token_before_paren hprevious htoken hc n, ← hstop]
    have hgoes : ∀ d, Cursor.read size' (some c.current.kind) (c.offset + n) (c.rest ++ ')' :: more) = .ok d →
        (⟨size', c.offset + n, c.rest ++ ')' :: more, c.current.shift n⟩ : Cursor).next = .ok d := by
      intro d hd
      rw [← hd]
      exact Cursor.next_of_not_finish hc
    have hnext' := hnext
    rw [Cursor.next_of_not_finish hc] at hnext'
    cases hc' : c'.current.isFinish with
    | false =>
      obtain ⟨d, e, g, hd', halong, he, hg, hgnext⟩ := ih hc' hnext' Iff.rfl
      refine ⟨_, e, g, hread', .more hc rfl hnext (hgoes d hd') halong, he, hg, ?_⟩
      rw [hgnext]
      congr 2
      omega
    | true =>
      have hblank : ∀ e ∈ c.rest, isBlank e = true := by
        rw [Token.isFinish, beq_iff_eq] at hc'
        cases Scan.token_splits (Cursor.read_eq_ok hnext').2.2 with
        | finish _ hblank => exact hblank
        | lexeme _ _ hkind => exact absurd hc' hkind
      -- Only blanks are left, and behind them the parenthesis is read.
      have hg := read_paren hblank size' (c.offset + n) (some c.current.kind) more
      refine ⟨_, c', _, hread', .last hc rfl hnext (hgoes _ hg), hc', rfl, ?_⟩
      rw [Cursor.next_of_not_finish rfl]
      congr 1
      dsimp only
      omega

end TypeAhead
