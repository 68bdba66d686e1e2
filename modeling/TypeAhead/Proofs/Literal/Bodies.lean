/-
  TypeAhead.Proofs.Literal.Bodies — ONE BODY AFTER ANOTHER.

  An escape that is decoded has all of its characters; only an octal one would take
  more of them, if more octal digits came next.  So where a body has been decoded to
  its end nothing is left open, and what comes after it is decoded as it is by itself,
  unless it starts with an octal digit.  A quote in between, with a backslash before it
  or doubled, is no octal digit, and what comes after that quote may start with anything.

      escape_append               what comes after an escape does not change it
      decode_append               what comes after a body is decoded next
      unescape_compositional      one body after another
-/
import TypeAhead.Proofs.Literal.Quoting

namespace TypeAhead.Literal

variable {a b u : List Char} {c value : Char} {cs decoded : List Char} {count skip used : Nat}

/-! ## §1. Escapes. -/

/-- No octal escape goes on with these characters. -/
def StartsAnew (b : List Char) : Prop := ∀ c ∈ b.head?, isOctalDigit c = false

theorem startsAnew_cons (h : isOctalDigit c = false) (cs : List Char) : StartsAnew (c :: cs) := by
  intro d hd
  cases hd
  exact h

/-- The digits of an octal escape end where the body does. -/
theorem octalDigits_append (hb : StartsAnew b) (cs : List Char) :
    ((cs ++ b).take 2).takeWhile isOctalDigit = (cs.take 2).takeWhile isOctalDigit := by
  have hnone : ∀ n, (b.take n).takeWhile isOctalDigit = [] := by
    intro n
    cases b with
    | nil => simp
    | cons d b => cases n <;> simp [hb d rfl]
  match cs with
  | [] => simp [hnone]
  | [d] => cases hd : isOctalDigit d <;> simp [hd, hnone]
  | d :: e :: cs => simp

/-- A hexadecimal escape has all its digits. -/
theorem hexChar_append (h : (hexChar c count cs).map (·, count) = .ok (value, used)) (b : List Char) :
    used ≤ cs.length ∧ (hexChar c count (cs ++ b)).map (·, count) = .ok (value, used) := by
  cases hchar : hexChar c count cs with
  | error reason =>
    rw [hchar] at h
    cases h
  | ok d =>
    -- As many characters as are asked for are there, so that none of the second part is taken.
    have hcount : count ≤ cs.length := by
      unfold hexChar at hchar
      dsimp only at hchar
      split at hchar
      · rename_i hdigits
        simp only [List.length_take, Bool.and_eq_true, decide_eq_true_eq] at hdigits
        omega
      · cases hchar
    have happend : hexChar c count (cs ++ b) = hexChar c count cs := by
      rw [hexChar, hexChar, List.take_append_of_le_length hcount]
    rw [happend]
    rw [hchar] at h ⊢
    cases h
    exact ⟨hcount, rfl⟩

/-- **What comes after an escape does not change it**, and is no part of it. -/
theorem escape_append (hb : StartsAnew b) (h : escape c cs = .ok (value, used)) :
    used ≤ cs.length ∧ escape c (cs ++ b) = .ok (value, used) := by
  revert h
  -- One case for each kind of escape; those that fail have nothing to keep.
  fun_cases escape c cs with
  | case1 cs d hletter =>
    intro h
    cases h
    exact ⟨Nat.zero_le _, by simp only [escape, hletter]⟩
  | case2 cs hletter hoctal more =>
    intro h
    cases h
    -- Octal digits are taken as long as there are any, up to two, and `b` starts with none.
    have hlength : more.length ≤ min 2 cs.length :=
      List.length_take ▸ (List.takeWhile_prefix isOctalDigit).length_le
    refine ⟨by omega, ?_⟩
    simp only [escape, hletter, if_pos hoctal, octalDigits_append hb]
    rfl
  | case3 cs hletter hoctal hx =>
    intro h
    subst hx
    exact hexChar_append h b
  | case4 cs hletter hoctal hx hu =>
    intro h
    subst hu
    exact hexChar_append h b
  | case5 => exact nofun
  | case6 hletter hoctal hx hu hc d cs =>
    -- The control letter is there already.
    intro h
    subst hc
    refine ⟨?_, h⟩
    cases hcontrol : controlChar d with
    | error reason =>
      rw [hcontrol] at h
      cases h
    | ok e =>
      rw [hcontrol] at h
      cases h
      simp
  | case7 => exact nofun
  | case8 cs hletter hoctal hx hu hc hword =>
    intro h
    cases h
    refine ⟨Nat.zero_le _, ?_⟩
    simp only [escape, hletter, if_neg hoctal, if_neg hx, if_neg hu, if_neg hc, if_neg hword]

/-! ## §2. Bodies. -/

/-- What was decoded before comes before all else. -/
theorem decode_onto (decoded before : List Char) (skip : Nat) (cs : List Char) :
    decode (decoded ++ before) skip cs = (decode decoded skip cs).map (before.reverse ++ ·) := by
  fun_induction decode decoded skip cs with
  | case1 decoded skip => simp [decode, Except.map]
  | case2 decoded skip c cs ih => exact ih
  | case3 decoded => rfl
  | case4 decoded c rest reason hescape =>
    simp only [decode, hescape]
    rfl
  | case5 decoded c rest value used hescape ih =>
    simp only [decode, hescape]
    exact ih
  | case6 decoded c cs hc ih =>
    rw [decode_plain hc]
    exact ih

/-- **What comes after a body is decoded next.**  Characters that belong to an escape are all in the body. -/
theorem decode_append (hb : StartsAnew b) (hskip : skip ≤ a.length) (h : decode decoded skip a = .ok u) :
    decode decoded skip (a ++ b) = decode u.reverse 0 b := by
  fun_induction decode decoded skip a with
  | case1 decoded skip =>
    cases h
    rw [Nat.le_zero.1 hskip, List.nil_append, List.reverse_reverse]
  | case2 decoded skip c cs ih => exact ih (Nat.le_of_succ_le_succ hskip) h
  | case3 => cases h
  | case4 => cases h
  | case5 decoded c rest value used hescape ih =>
    obtain ⟨hused, happend⟩ := escape_append hb hescape
    rw [← ih (Nat.succ_le_succ hused) h]
    simp only [List.cons_append, decode, happend]
  | case6 decoded c cs hc ih => rw [List.cons_append, decode_plain hc, ih (Nat.zero_le _) h]

/-- A body without escapes stands for itself. -/
theorem unescape_of_plain (h : '\\' ∉ a) : unescape a = .ok a := by
  have hdecode : ∀ decoded, decode decoded 0 a = .ok (decoded.reverse ++ a) := by
    induction a with
    | nil => simp [decode]
    | cons c cs ih =>
      intro decoded
      obtain ⟨hc, hcs⟩ := not_or.1 (mt List.mem_cons.2 h)
      rw [decode_plain (Ne.symm hc), ih hcs]
      simp
  exact hdecode []

/-- **One body after another** is decoded part by part. -/
theorem unescape_append (ha : unescape a = .ok u) (hb : StartsAnew b) :
    unescape (a ++ b) = (unescape b).map (u ++ ·) := by
  rw [unescape, decode_append hb (Nat.zero_le _) ha, ← List.nil_append u.reverse, decode_onto,
    List.reverse_reverse]
  rfl

/-- A double quote with a backslash before it stands for itself before anything. -/
theorem unescape_escapedQuote (b : List Char) :
    unescape ('\\' :: '"' :: b) = (unescape b).map ('"' :: ·) := by
  rw [unescape, decode_escaped (.inr rfl)]
  exact decode_onto [] ['"'] 0 b

/-- A bare double quote stands for itself before anything. -/
theorem unescape_quote (b : List Char) : unescape ('"' :: b) = (unescape b).map ('"' :: ·) := by
  rw [unescape, decode_plain (by decide)]
  exact decode_onto [] ['"'] 0 b

/-! ## §3. Bodies in a row. -/

/-- **Decoding is compositional.**  After a body that has been decoded, whatever starts with no octal
digit is decoded, or found wrong, as it is by itself.  Behind a double quote in between, be it bare, doubled or
with a backslash before it, that holds of anything.  A body without escapes stands for itself. -/
theorem unescape_compositional (ha : unescape a = .ok u) :
    (∀ b, (∀ c ∈ b.head?, isOctalDigit c = false) → unescape (a ++ b) = (unescape b).map (u ++ ·)) ∧
    (∀ b, unescape (a ++ '"' :: b) = (unescape b).map (u ++ '"' :: ·)) ∧
    (∀ b, unescape (a ++ '"' :: '"' :: b) = (unescape b).map (u ++ '"' :: '"' :: ·)) ∧
    (∀ b, unescape (a ++ '\\' :: '"' :: b) = (unescape b).map (u ++ '"' :: ·)) ∧
    ∀ b, '\\' ∉ b → unescape b = .ok b := by
  -- No double quote goes on with an escape at the end of `a`, and what it stands for is clear at once.
  refine ⟨fun b hb => unescape_append ha hb, fun b => ?_, fun b => ?_, fun b => ?_, fun b => unescape_of_plain⟩
  · rw [unescape_append ha (startsAnew_cons rfl _), unescape_quote]
    cases unescape b <;> rfl
  · rw [unescape_append ha (startsAnew_cons rfl _), unescape_quote, unescape_quote]
    cases unescape b <;> rfl
  · rw [unescape_append ha (startsAnew_cons rfl _), unescape_escapedQuote]
    cases unescape b <;> rfl

/-- An octal escape at the end of a body, and behind it a digit that is not octal and an escape. -/
theorem unescape_compositional_of_octal :
    unescape "\\101".toList = .ok ['A'] ∧ isOctalDigit '8' = false ∧
      unescape ("\\101".toList ++ "8\\n".toList) = (unescape "8\\n".toList).map (['A'] ++ ·) ∧
      unescape ("\\101".toList ++ "8\\n".toList) = .ok ['A', '8', '\n'] := by
  have ha : unescape "\\101".toList = .ok ['A'] := rfl
  have hb : ∀ c ∈ "8\\n".toList.head?, isOctalDigit c = false := by
    intro c hc
    have hc : some '8' = some c := hc
    cases hc
    rfl
  exact ⟨ha, rfl, (unescape_compositional ha).1 _ hb, rfl⟩

/-- An octal digit may belong to the escape before it. -/
example : unescape "\\10".toList = .ok ['\x08'] ∧ unescape ("\\10".toList ++ ['1']) = .ok ['A'] :=
  ⟨rfl, rfl⟩

end TypeAhead.Literal
