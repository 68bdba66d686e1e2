/-
  TypeAhead.Proofs.Walk.Abreast — TWO TEXTS WITH THE SAME TOKENS.

  Where two texts have the same kinds of tokens with the same wording, one after
  the other, their walks are twins.  Places correspond where tokens of the same
  number start.

      abreast                twin walks over the same tokens
      abreast_of_tokenize    both start at the first token
-/
import TypeAhead.Proofs.Token.Ahead
import TypeAhead.Proofs.Walk.Twins

namespace TypeAhead

open Text

/-! ## §1. Places with the same number. -/

/-- Tokens of the same number start at the two offsets. -/
def AtSame (tokens tokens' : List Token) (a b : Nat) : Prop :=
  ∃ i : Nat, tokens[i]?.map Token.start = some a ∧ tokens'[i]?.map Token.start = some b

variable {tokens tokens' ts ts' : List Token} {t t' : Token} {n : Nat} {c d : Cursor}

theorem atSame_of_suffix (hface : tokens'.map Token.face = tokens.map Token.face)
    (hts : (t :: ts) <:+ tokens) (hts' : (t' :: ts') <:+ tokens') (hlength : ts'.length = ts.length) :
    AtSame tokens tokens' t.start t'.start := by
  have hlen : tokens'.length = tokens.length := by simpa using congrArg List.length hface
  obtain ⟨before, rfl⟩ := hts
  obtain ⟨before', rfl⟩ := hts'
  have hbefore : before'.length = before.length := by
    simp only [List.length_append, List.length_cons, hlength] at hlen
    omega
  refine ⟨before.length, by simp, ?_⟩
  rw [← hbefore]
  simp

/-! ## §2. Cursors with the same tokens. -/

/-- The two cursors stand on the same token, with `n` tokens after it that are the same as well. -/
structure Abreast (tokens tokens' : List Token) (size size' n : Nat) (c d : Cursor) : Prop where
  size_eq : c.size = size ∧ d.size = size'
  ahead : ∃ ts ts', After c ts ∧ After d ts' ∧ ts <:+ tokens ∧ ts' <:+ tokens' ∧
    ts'.map Token.face = ts.map Token.face ∧ ts.length = n
  kind_eq : d.current.kind = c.current.kind
  text_eq : d.current.text = c.current.text
  start_eq : AtSame tokens tokens' c.current.start d.current.start

/-- **Texts with the same tokens are walked by twins.** -/
def abreast (tokens tokens' : List Token) (size size' : Nat)
    (hface : tokens'.map Token.face = tokens.map Token.face)
    (hsize : tokens.length ≤ size + 1 ∧ tokens'.length ≤ size' + 1) : Twins where
  alike n c d := Abreast tokens tokens' size size' n c d
  place := AtSame tokens tokens'
  kind_eq h := h.kind_eq
  text_eq h := h.text_eq
  start_eq h := h.start_eq
  le_size {n c d} h := by
    obtain ⟨ts, ts', -, -, hts, -, -, rfl⟩ := h.ahead
    have hle := hts.length_le
    have hlen : tokens'.length = tokens.length := by simpa using congrArg List.length hface
    rw [h.size_eq.1, h.size_eq.2]
    omega
  next {n c d} h hc := by
    obtain ⟨ts, ts', hafter, hafter', hts, hts', hfaces, rfl⟩ := h.ahead
    have hd : d.current.isFinish = false := by rw [Token.isFinish, h.kind_eq]; exact hc
    cases hafter with
    | finish hfinish => exact absurd (hfinish.symm.trans hc) nofun
    | @next _ c₁ ts _ hnext hafter =>
      cases hafter' with
      | finish hfinish => exact absurd (hfinish.symm.trans hd) nofun
      | @next _ d₁ ts' _ hnext' hafter' =>
        obtain ⟨hface₁, hfaces⟩ := List.cons.inj hfaces
        obtain ⟨hkind, htext⟩ := Prod.mk.inj hface₁
        have hlength : ts'.length = ts.length := by simpa using congrArg List.length hfaces
        rw [hnext, hnext']
        refine .ok ⟨ts.length, by simp, ?_, ⟨ts, ts', hafter, hafter', ?_, ?_, hfaces, rfl⟩, hkind,
          htext, atSame_of_suffix hface hts hts' hlength⟩
        · rw [Cursor.next_of_not_finish hc] at hnext
          rw [Cursor.next_of_not_finish hd] at hnext'
          exact ⟨(Cursor.read_eq_ok hnext).1.trans h.size_eq.1,
            (Cursor.read_eq_ok hnext').1.trans h.size_eq.2⟩
        · exact (List.suffix_cons _ _).trans hts
        · exact (List.suffix_cons _ _).trans hts'
  replace {n c d s t} h hkind hkind' htext hplace := by
    obtain ⟨ts, ts', hafter, hafter', hrest⟩ := h.ahead
    refine ⟨h.size_eq, ⟨ts, ts', hafter.congr rfl rfl rfl hkind, ?_, hrest⟩, hkind', htext, hplace⟩
    exact hafter'.congr rfl rfl rfl (hkind'.trans (hkind.trans h.kind_eq.symm))

/-- **Both texts start at their first token.** -/
theorem abreast_of_tokenize {text text' : String} (h : tokenize text = .ok tokens)
    (h' : tokenize text' = .ok tokens') (hface : tokens'.map Token.face = tokens.map Token.face) :
    ∃ c d n, Cursor.open? text.toList = .ok c ∧ Cursor.open? text'.toList = .ok d ∧
      n ≤ c.size ∧ n ≤ d.size ∧
      Abreast tokens tokens' (byteSize text.toList) (byteSize text'.toList) n c d := by
  obtain ⟨c, ts, hopen, rfl, hafter⟩ := after_of_tokenize h
  obtain ⟨d, ts', hopen', rfl, hafter'⟩ := after_of_tokenize h'
  have hsize : c.size = byteSize text.toList := (Cursor.read_eq_ok hopen).1
  have hsize' : d.size = byteSize text'.toList := (Cursor.read_eq_ok hopen').1
  have hle := hafter.length_le (.first hopen)
  have hle' := hafter'.length_le (.first hopen')
  obtain ⟨hface₁, hfaces⟩ := List.cons.inj hface
  obtain ⟨hkind, htext⟩ := Prod.mk.inj hface₁
  have hlength : ts'.length = ts.length := by simpa using congrArg List.length hfaces
  refine ⟨c, d, ts.length, hopen, hopen', by omega, by omega, ⟨hsize, hsize'⟩,
    ⟨ts, ts', hafter, hafter', List.suffix_cons _ _, List.suffix_cons _ _, hfaces, rfl⟩, hkind, htext,
    atSame_of_suffix hface (List.suffix_refl _) (List.suffix_refl _) hlength⟩

end TypeAhead
