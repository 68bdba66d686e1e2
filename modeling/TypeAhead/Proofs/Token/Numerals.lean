/-
  TypeAhead.Proofs.Token.Numerals — THE GRAMMAR OF NUMBERS.

  An integer is written with decimal digits, or with `0x` and hexadecimal ones, and
  may have a suffix.  A real number has digits and a fraction, an exponent or a suffix,
  or several of these.  The scanner takes parts as they come.  That it never takes too
  few follows from two facts: it reads each number of the grammar as a whole, and what
  it reads does not depend on whether more of the text is there.

      Numeral                  the numbers of the grammar
      MissesDigit              where a number is begun that cannot be ended
      number_of_numeral        a number by itself is read as a whole
      number_eq_error_iff      when no number is read
      number_longest           what is read is the longest number
-/
import TypeAhead.Proofs.Token.Coverage
import TypeAhead.Proofs.Token.Spacing

namespace TypeAhead.Scan

open Text

variable {c e : Char} {cs ds f rest s w : List Char} {start : Nat} {kind : TokenKind} {fault : Fault}

/-! ## §1. The grammar. -/

/-- One decimal digit or more. -/
def Digits (cs : List Char) : Prop := cs ≠ [] ∧ ∀ c ∈ cs, c.isDigit = true

/-- One hexadecimal digit or more. -/
def HexDigits (cs : List Char) : Prop := cs ≠ [] ∧ ∀ c ∈ cs, isHexDigit c = true

/-- The suffix of an integer, or none: `U`, `L` or both, in either order and in any case. -/
def IntegerMark (cs : List Char) : Prop :=
  cs.map Char.toLower ∈ [[], ['u'], ['u', 'l'], ['l'], ['l', 'u']]

/-- A point and digits. -/
def Fraction (cs : List Char) : Prop := ∃ ds, Digits ds ∧ cs = '.' :: ds

/-- The sign of an exponent, or none. -/
def Sign (cs : List Char) : Prop := cs = [] ∨ cs = ['+'] ∨ cs = ['-']

/-- An `e`, a sign or none, and digits. -/
def Exponent (cs : List Char) : Prop :=
  ∃ e sign ds, e.toLower = 'e' ∧ Sign sign ∧ Digits ds ∧ cs = e :: sign ++ ds

/-- The suffix of a real number: `F`, `D` or `M`, in any case. -/
def RealMark (cs : List Char) : Prop := ∃ c, cs = [c] ∧ c.toLower ∈ ['f', 'd', 'm']

/-- Digits, with a fraction or not, and with an exponent or not. -/
def Decimal (cs : List Char) : Prop :=
  ∃ ds f e, Digits ds ∧ (f = [] ∨ Fraction f) ∧ (e = [] ∨ Exponent e) ∧ cs = ds ++ f ++ e

/-- The numbers of the grammar, with their kinds. -/
inductive Numeral : TokenKind → List Char → Prop where
  | decimal {ds s : List Char} (hds : Digits ds) (hs : IntegerMark s) : Numeral .integerLiteral (ds ++ s)
  | hexadecimal {x : Char} {ds s : List Char} (hx : x.toLower = 'x') (hds : HexDigits ds)
      (hs : IntegerMark s) : Numeral .integerLiteral ('0' :: x :: ds ++ s)
  | real {ds f e s : List Char} (hds : Digits ds) (hf : f = [] ∨ Fraction f) (he : e = [] ∨ Exponent e)
      (hs : s = [] ∨ RealMark s) (hsome : f ++ e ++ s ≠ []) : Numeral .realLiteral (ds ++ f ++ e ++ s)

/-- `MissesDigit front rest`: after `front` the number cannot but go on with a digit, and `rest` does not
start with one. -/
inductive MissesDigit : List Char → List Char → Prop where
  | hexadecimal {x : Char} {rest : List Char} (hx : x.toLower = 'x')
      (hrest : ∀ c ∈ rest.head?, isHexDigit c = false) : MissesDigit ['0', x] rest
  | exponent {ds f sign rest : List Char} {e : Char} (hds : Digits ds) (hf : f = [] ∨ Fraction f)
      (he : e.toLower = 'e') (hsign : Sign sign)
      (hunsigned : sign = [] → ∀ c ∈ rest.head?, c ≠ '+' ∧ c ≠ '-')
      (hrest : ∀ c ∈ rest.head?, c.isDigit = false) : MissesDigit (ds ++ f ++ e :: sign) rest

/-! ## §2. Letters of numbers. -/

/-- A digit has no other case. -/
theorem toLower_of_isDigit (h : c.isDigit = true) : c.toLower = c := by
  simp only [Char.isDigit, Bool.and_eq_true, decide_eq_true_eq] at h
  have hlow : ¬ (c.val ≥ 'A'.val ∧ c.val ≤ 'Z'.val) := by
    intro hupper
    exact absurd (UInt32.le_trans hupper.1 h.2) (by decide)
  unfold Char.toLower
  exact dif_neg hlow

/-- No digit has the lower case of a letter. -/
theorem isDigit_of_toLower {letter : Char} (h : c.toLower = letter) (hletter : letter.isDigit = false) :
    c.isDigit = false := by
  cases hdigit : c.isDigit with
  | false => rfl
  | true =>
    rw [toLower_of_isDigit hdigit] at h
    rw [← hdigit, h, hletter]

/-- A hexadecimal digit is one in the other case as well. -/
theorem isHexDigit_toLower (h : isHexDigit c = true) : isHexDigit c.toLower = true := by
  have hall : ∀ n ∈ List.range 128, isHexDigit (Char.ofNat n) = true →
      isHexDigit (Char.ofNat n).toLower = true := by decide +kernel
  have hlow : c.toNat < 128 := by
    simp only [isHexDigit, Char.isDigit, Bool.or_eq_true, Bool.and_eq_true, decide_eq_true_eq] at h
    rcases h with (h | h) | h
    · exact Nat.lt_of_le_of_lt (UInt32.le_iff_toNat_le.1 h.2) (by decide)
    · exact Nat.lt_of_le_of_lt (UInt32.le_iff_toNat_le.1 h.2) (by decide)
    · exact Nat.lt_of_le_of_lt (UInt32.le_iff_toNat_le.1 h.2) (by decide)
  rw [← Char.ofNat_toNat c] at h ⊢
  exact hall _ (List.mem_range.2 hlow) h

/-- What an exponent or the suffix of a real number starts with. -/
def BeginsMark (c : Char) : Prop := c.toLower ∈ ['e', 'f', 'd', 'm']

/-- A mark behind a number does not begin with a digit. -/
theorem BeginsMark.isDigit (h : BeginsMark c) : c.isDigit = false := by
  have hletters : ∀ letter ∈ ['e', 'f', 'd', 'm'], letter.isDigit = false := by simp
  exact isDigit_of_toLower rfl (hletters _ h)

/-- A mark behind a number does not begin with a dot. -/
theorem BeginsMark.ne_dot (h : BeginsMark c) : c ≠ '.' := by
  rintro rfl
  revert h
  unfold BeginsMark
  decide

/-- What can stand behind the digits of a real number. -/
def BeginsPart (c : Char) : Prop := c = '.' ∨ BeginsMark c

/-- A part of a real number does not begin with a digit. -/
theorem BeginsPart.isDigit (h : BeginsPart c) : c.isDigit = false := by
  rcases h with rfl | h
  · rfl
  · exact h.isDigit

/-- It is nothing that an integer can go on with. -/
theorem BeginsPart.toLower_ne (h : BeginsPart c) : c.toLower ≠ 'x' ∧ c.toLower ≠ 'u' ∧ c.toLower ≠ 'l' := by
  rcases h with rfl | h
  · decide
  · have hletters : ∀ letter ∈ ['e', 'f', 'd', 'm'], letter ≠ 'x' ∧ letter ≠ 'u' ∧ letter ≠ 'l' := by simp
    exact hletters _ h

/-- The letter of an exponent may begin what stands behind the digits. -/
theorem beginsMark_of_exponent (he : e.toLower = 'e') : BeginsMark e := by
  unfold BeginsMark
  rw [he]
  exact List.mem_cons_self

/-- What stands behind digits and a fraction. -/
theorem beginsMark_of_mem {part : List Char} (he : part = [] ∨ Exponent part) (hs : s = [] ∨ RealMark s)
    (hc : c ∈ (part ++ s).head?) : BeginsMark c := by
  rcases he with rfl | ⟨e, sign, ds, he, -, -, rfl⟩
  · rcases hs with rfl | ⟨d, rfl, hd⟩
    · cases hc
    · cases hc
      exact List.mem_cons_of_mem 'e' hd
  · cases hc
    exact beginsMark_of_exponent he

/-- What stands behind the digits. -/
theorem beginsPart_of_mem (hf : f = [] ∨ Fraction f) (hrest : ∀ c ∈ rest.head?, BeginsMark c)
    (hc : c ∈ (f ++ rest).head?) : BeginsPart c := by
  rcases hf with rfl | ⟨ds, -, rfl⟩
  · exact .inr (hrest c hc)
  · cases hc
    exact .inl rfl

/-! ## §3. What the parts of a number are. -/

/-- What is read as the suffix of an integer is one. -/
theorem integerMark_integerSuffix (cs : List Char) : IntegerMark (integerSuffix cs) := by
  unfold IntegerMark integerSuffix
  split
  · repeat' split
    all_goals simp_all
  · split
    · rename_i h
      simp only [Bool.or_eq_true, decide_eq_true_eq] at h
      rcases h with h | h <;> simp [h]
    · exact List.mem_cons_self
  · exact List.mem_cons_self

/-- What is read as a fraction is one. -/
theorem fraction_fraction (cs : List Char) : fraction cs = [] ∨ Fraction (fraction cs) := by
  unfold fraction
  split
  · rename_i cs
    dsimp only
    split
    · exact .inl rfl
    · rename_i hempty
      exact .inr ⟨_, ⟨by simpa using hempty, mem_takeWhile⟩, rfl⟩
  · exact .inl rfl

/-- What is read as a sign is one. -/
theorem sign_sign (cs : List Char) : Sign (sign cs) := by
  unfold sign Sign
  split <;> simp

/-- What is read as an exponent is one. -/
theorem exponent_exponent {part : List Char} (h : exponent cs = .ok part) : part = [] ∨ Exponent part := by
  rcases exponent_eq_ok_iff.1 h with ⟨-, rfl⟩ | ⟨c, tail, rfl, he, hdigits, rfl⟩
  · exact .inl rfl
  · exact .inr ⟨_, _, _, he, sign_sign _, ⟨hdigits, mem_takeWhile⟩, rfl⟩

/-- What is read as the suffix of a real number is one. -/
theorem realMark_realSuffix (cs : List Char) : realSuffix cs = [] ∨ RealMark (realSuffix cs) := by
  unfold realSuffix
  split
  · split
    · rename_i h
      simp only [Bool.or_eq_true, decide_eq_true_eq, or_assoc] at h
      exact .inr ⟨_, rfl, by simpa using h⟩
    · exact .inl rfl
  · exact .inl rfl

/-! ## §4. Each number by itself. -/

/-- A suffix of an integer is read whole. -/
theorem integerSuffix_of_mark (hs : IntegerMark s) : integerSuffix s = s := by
  simp only [IntegerMark, List.mem_cons, List.not_mem_nil, or_false, List.map_eq_nil_iff,
    List.map_eq_cons_iff] at hs
  rcases hs with rfl | ⟨c, _, rfl, hc, rfl⟩ | ⟨c, _, rfl, hc, d, _, rfl, hd, rfl⟩ | ⟨c, _, rfl, hc, rfl⟩ |
    ⟨c, _, rfl, hc, d, _, rfl, hd, rfl⟩
  · rfl
  · simp [integerSuffix, hc]
  · simp [integerSuffix, hc, hd]
  · simp [integerSuffix, hc]
  · simp [integerSuffix, hc, hd]

/-- The suffix of an integer starts with one of two letters. -/
theorem IntegerMark.head (hs : IntegerMark s) (hc : c ∈ s.head?) : c.toLower = 'u' ∨ c.toLower = 'l' := by
  cases s with
  | nil => cases hc
  | cons d s =>
    cases hc
    simp only [IntegerMark, List.map_cons, List.mem_cons, List.not_mem_nil, or_false, reduceCtorEq, false_or,
      List.cons.injEq] at hs
    rcases hs with ⟨h, -⟩ | ⟨h, -⟩ | ⟨h, -⟩ | ⟨h, -⟩
    · exact .inl h
    · exact .inl h
    · exact .inr h
    · exact .inr h

/-- Such a suffix does not go on with hexadecimal digits. -/
theorem IntegerMark.isHexDigit (hs : IntegerMark s) (hc : c ∈ s.head?) : isHexDigit c = false := by
  cases h : Scan.isHexDigit c with
  | false => rfl
  | true =>
    have hlower := isHexDigit_toLower h
    rcases hs.head hc with hmark | hmark
    · rw [hmark] at hlower
      cases hlower
    · rw [hmark] at hlower
      cases hlower

/-- There is none where neither of its letters stands. -/
theorem integerSuffix_eq_nil (h : ∀ c ∈ cs.head?, c.toLower ≠ 'u' ∧ c.toLower ≠ 'l') :
    integerSuffix cs = [] := by
  have hmark := integerMark_integerSuffix cs
  cases hsuffix : integerSuffix cs with
  | nil => rfl
  | cons c s =>
    rw [hsuffix] at hmark
    obtain ⟨rest, hcs⟩ := hsuffix ▸ integerSuffix_isPrefix cs
    have hne := h c (by rw [← hcs]; rfl)
    rcases hmark.head rfl with hc | hc
    · exact absurd hc hne.1
    · exact absurd hc hne.2

/-- A sign is read whole. -/
theorem sign_append_of_sign {sg : List Char} (hsign : Sign sg)
    (hunsigned : sg = [] → ∀ c ∈ rest.head?, c ≠ '+' ∧ c ≠ '-') : sign (sg ++ rest) = sg := by
  rcases hsign with rfl | rfl | rfl
  · cases rest with
    | nil => rfl
    | cons c rest =>
      obtain ⟨hplus, hminus⟩ := hunsigned rfl c rfl
      simp [sign, hplus, hminus]
  · rfl
  · rfl

/-- A fraction is read whole, if no digit and no dot follows. -/
theorem fraction_append_of_fraction (hf : f = [] ∨ Fraction f) (hrest : ∀ c ∈ rest.head?, BeginsMark c) :
    fraction (f ++ rest) = f := by
  rcases hf with rfl | ⟨ds, hds, rfl⟩
  · cases rest with
    | nil => rfl
    | cons c rest => simp [fraction, (hrest c rfl).ne_dot]
  · have hrun : (ds ++ rest).takeWhile Char.isDigit = ds :=
      takeWhile_run hds.2 fun c hc => (hrest c hc).isDigit
    simp [fraction, hrun, hds.1]

/-- An exponent is read whole, if no digit follows it. -/
theorem exponent_append_of_exponent {part : List Char} (he : part = [] ∨ Exponent part)
    (hs : s = [] ∨ RealMark s) : exponent (part ++ s) = .ok part := by
  rcases he with rfl | ⟨e, sg, ds, he, hsign, hds, rfl⟩
  · rcases hs with rfl | ⟨c, rfl, hc⟩
    · rfl
    · have hne : c.toLower ≠ 'e' := by
        intro h
        rw [h] at hc
        revert hc
        decide
      exact exponent_eq_ok_iff.2 (.inl ⟨fun d hd => by cases hd; exact hne, rfl⟩)
  -- Mark, sign and digits are read one after the other, and the suffix is no digit.
  · have hsigned : sign (sg ++ (ds ++ s)) = sg := by
      refine sign_append_of_sign hsign fun _ c hc => ?_
      obtain ⟨d, ds, rfl⟩ := List.exists_cons_of_ne_nil hds.1
      obtain rfl : d = c := Option.some.inj hc
      have hdigit := hds.2 d List.mem_cons_self
      constructor <;> (rintro rfl; cases hdigit)
    have hrun : (ds ++ s).takeWhile Char.isDigit = ds :=
      takeWhile_run hds.2 fun c hc => (beginsMark_of_mem (.inl rfl) hs hc).isDigit
    refine exponent_eq_ok_iff.2 (.inr ⟨e, sg ++ (ds ++ s), by simp, he, ?_, ?_⟩)
    · rw [hsigned, List.drop_left, hrun]
      exact hds.1
    · rw [hsigned, List.drop_left, hrun]

/-- A suffix of a real number is read whole. -/
theorem realSuffix_of_mark (hs : s = [] ∨ RealMark s) : realSuffix s = s := by
  rcases hs with rfl | ⟨c, rfl, hc⟩
  · rfl
  · simp only [List.mem_cons, List.not_mem_nil, or_false] at hc
    simp [realSuffix, or_assoc, hc]

/-- What follows the digits of a number without a mark makes it real, or is no part of it. -/
theorem number_digits_append (hds : Digits ds) (hrest : ∀ c ∈ rest.head?, BeginsPart c) :
    number start (ds ++ rest) =
      match realPart (start + ds.length) rest with
      | .error fault => .error fault
      | .ok part => .ok (if part.isEmpty then .integerLiteral else .realLiteral, ds ++ part) := by
  have hrun : (ds ++ rest).takeWhile Char.isDigit = ds := takeWhile_run hds.2 fun c hc => (hrest c hc).isDigit
  have hhex : hexMark? ds rest = none := by
    unfold hexMark?
    split
    · rename_i c rest
      exact if_neg (hrest c rfl).toLower_ne.1
    · rfl
  have hsuffix : integerSuffix rest = [] := integerSuffix_eq_nil fun c hc => (hrest c hc).toLower_ne.2
  cases hpart : realPart (start + ds.length) rest <;>
    simp only [number, hrun, List.drop_left, hhex, hsuffix, List.isEmpty_nil, if_true, hpart]

/-- **A number by itself is read as a whole**, and of its kind. -/
theorem number_of_numeral (h : Numeral kind w) : number start w = .ok (kind, w) := by
  -- One case for each form: what is read is each of its parts, whole.
  cases h with
  | @decimal ds s hds hs =>
    have hrun : (ds ++ s).takeWhile Char.isDigit = ds := by
      refine takeWhile_run hds.2 fun c hc => ?_
      rcases hs.head hc with h | h
      · exact isDigit_of_toLower h rfl
      · exact isDigit_of_toLower h rfl
    -- The suffix of a decimal number does not begin with a mark.
    have hhex : hexMark? ds s = none := by
      unfold hexMark?
      split
      · rename_i c s
        refine if_neg fun hx => ?_
        rcases hs.head (c := c) rfl with h | h
        · cases hx.symm.trans h
        · cases hx.symm.trans h
      · rfl
    simp only [number, hrun, List.drop_left, hhex, integerSuffix_of_mark hs]
    split
    · rename_i hempty
      rw [List.isEmpty_iff.1 hempty]
      rfl
    · rfl
  | @hexadecimal x ds s hx hds hs =>
    have hrun : ('0' :: x :: (ds ++ s)).takeWhile Char.isDigit = ['0'] := by
      simp [isDigit_of_toLower hx rfl]
    have hhex : (ds ++ s).takeWhile isHexDigit = ds := takeWhile_run hds.2 fun c hc => hs.isHexDigit hc
    have hne : ds.isEmpty = false := by simpa using hds.1
    simp [number, hrun, hexMark?, hx, hhex, hne, Nat.add_comm 1, integerSuffix_of_mark hs]
  | @real ds f e s hds hf he hs hsome =>
    -- The parts of a real number begin in different letters, so that none takes from the next.
    have hmark : ∀ c ∈ (e ++ s).head?, BeginsMark c := fun c hc => beginsMark_of_mem he hs hc
    have hpart : realPart (start + ds.length) (f ++ (e ++ s)) = .ok (f ++ e ++ s) := by
      simp only [realPart, fraction_append_of_fraction hf hmark, List.drop_left,
        exponent_append_of_exponent he hs, realSuffix_of_mark hs]
    have hne : (f ++ e ++ s).isEmpty = false := by
      rwa [List.isEmpty_eq_false_iff]
    have hsplit : ds ++ f ++ e ++ s = ds ++ (f ++ (e ++ s)) := by simp only [List.append_assoc]
    rw [hsplit, number_digits_append hds fun c hc => beginsPart_of_mem hf hmark hc, hpart]
    dsimp only
    rw [hne, List.append_assoc f]
    rfl

/-! ## §5. What is read, and when nothing is. -/

/-- What is taken of digits that there are are digits. -/
theorem digits_takeWhile (hdigit : c.isDigit = true) (cs : List Char) :
    Digits ((c :: cs).takeWhile Char.isDigit) := by
  refine ⟨?_, mem_takeWhile⟩
  rw [List.takeWhile_cons_of_pos hdigit]
  exact List.cons_ne_nil _ _

/-- Where a number is read, it is one of the grammar. -/
theorem numeral_of_number (hdigit : c.isDigit = true) (h : number start (c :: cs) = .ok (kind, w)) :
    Numeral kind w := by
  have hdigits := digits_takeWhile hdigit cs
  simp only [number] at h
  -- By what stands behind the digits: a mark after a zero, a suffix, or parts of a real number.
  split at h
  · rename_i mark hmark
    split at h
    · cases h
    · rename_i hhex
      cases h
      exact .hexadecimal (hexMark?_eq_some hmark).2.1 ⟨by simpa using hhex, mem_takeWhile⟩
        (integerMark_integerSuffix _)
  · split at h
    · simp only [realPart] at h
      split at h
      · cases h
      · rename_i part hpart
        split at hpart
        · cases hpart
        · rename_i exp hexp
          cases hpart
          cases h
          split
          -- Nothing stands behind them.
          · rename_i hempty
            rw [List.isEmpty_iff.1 hempty]
            exact .decimal hdigits List.mem_cons_self
          · rename_i hsome
            rw [← List.append_assoc, ← List.append_assoc]
            exact .real hdigits (fraction_fraction _) (exponent_exponent hexp) (realMark_realSuffix _)
              (by simpa using hsome)
    · cases h
      exact .decimal hdigits (integerMark_integerSuffix _)

/-- Where no sign is read, none stands. -/
theorem unsigned_of_sign (h : sign cs = []) : ∀ c ∈ cs.head?, c ≠ '+' ∧ c ≠ '-' := by
  intro c hc
  cases cs with
  | nil => cases hc
  | cons d cs =>
    cases hc
    constructor
    · rintro rfl
      cases h
    · rintro rfl
      cases h

/-- Where an exponent is begun and not ended. -/
theorem missing_of_exponent {n : Nat} (h : exponent cs = .error n) :
    ∃ e sg rest, cs = e :: sg ++ rest ∧ n = (e :: sg).length ∧ e.toLower = 'e' ∧ Sign sg ∧
      (sg = [] → ∀ c ∈ rest.head?, c ≠ '+' ∧ c ≠ '-') ∧ ∀ c ∈ rest.head?, c.isDigit = false := by
  obtain ⟨e, tail, rfl, he, hempty, rfl⟩ := exponent_eq_error_iff.1 h
  have htail : tail = sign tail ++ tail.drop (sign tail).length :=
    (List.prefix_iff_eq_append.1 (sign_isPrefix tail)).symm
  refine ⟨e, sign tail, _, congrArg (e :: ·) htail, Nat.add_comm _ _, he, sign_sign tail, ?_, ?_⟩
  · intro hnone
    rw [hnone]
    exact unsigned_of_sign hnone
  · have hover := head?_drop_takeWhile Char.isDigit (tail.drop (sign tail).length)
    rw [hempty] at hover
    exact hover

/-- Where no number is read, a digit is missing. -/
theorem missesDigit_of_number (hdigit : c.isDigit = true) (h : number start (c :: cs) = .error fault) :
    ∃ front rest, c :: cs = front ++ rest ∧ MissesDigit front rest ∧
      fault = ⟨.digitExpected, start + front.length⟩ := by
  have hdigits := digits_takeWhile hdigit cs
  have hsplit : c :: cs = (c :: cs).takeWhile Char.isDigit ++
      (c :: cs).drop ((c :: cs).takeWhile Char.isDigit).length :=
    (List.prefix_iff_eq_append.1 (List.takeWhile_prefix _)).symm
  simp only [number] at h
  -- The digits and what stands behind them.
  generalize (c :: cs).takeWhile Char.isDigit = ds at h hdigits hsplit
  generalize (c :: cs).drop ds.length = tail at h hsplit
  rw [hsplit]
  split at h
  · rename_i mark hmark
    obtain ⟨rfl, hletter, rest, rfl⟩ := hexMark?_eq_some hmark
    split at h
    · rename_i hempty
      cases h
      have hover := head?_drop_takeWhile isHexDigit rest
      rw [show rest.takeWhile isHexDigit = [] from List.isEmpty_iff.1 hempty] at hover
      exact ⟨['0', mark], rest, rfl, .hexadecimal hletter hover, rfl⟩
    · cases h
  -- A fault is one of the mark or one of the exponent; nothing else can be missing.
  · split at h
    · simp only [realPart] at h
      split at h
      · rename_i other hother
        cases h
        split at hother
        · rename_i n hexp
          cases hother
          obtain ⟨e, sg, rest, hrest, rfl, he, hsign, hunsigned, hnone⟩ := missing_of_exponent hexp
          have hfraction := List.prefix_iff_eq_append.1 (fraction_isPrefix tail)
          refine ⟨_, rest, ?_, .exponent hdigits (fraction_fraction tail) he hsign hunsigned hnone, ?_⟩
          · rw [List.append_assoc, List.append_assoc, ← hrest, hfraction]
          · simp only [List.length_append, Nat.add_assoc]
        · cases hother
      · cases h
    · cases h

/-- Where a digit is missing, no number is read. -/
theorem number_of_missesDigit {front : List Char} (h : MissesDigit front rest) :
    number start (front ++ rest) = .error ⟨.digitExpected, start + front.length⟩ := by
  -- The digits are read up to the mark, and behind it there are none.
  cases h with
  | @hexadecimal x _ hx hrest =>
    have hrun : ('0' :: x :: rest).takeWhile Char.isDigit = ['0'] := by
      simp [isDigit_of_toLower hx rfl]
    have hhex : rest.takeWhile isHexDigit = [] := takeWhile_eq_nil hrest
    simp [number, hrun, hexMark?, hx, hhex]
  | @exponent ds f sg _ e hds hf he hsign hunsigned hrest =>
    have hmark : ∀ c ∈ (e :: sg ++ rest).head?, BeginsMark c := by
      intro c hc
      obtain rfl : e = c := Option.some.inj hc
      exact beginsMark_of_exponent he
    have hsigned : sign (sg ++ rest) = sg := sign_append_of_sign hsign hunsigned
    have hexp : Scan.exponent (e :: sg ++ rest) = .error (1 + sg.length) := by
      refine exponent_eq_error_iff.2 ⟨e, sg ++ rest, rfl, he, ?_, by rw [hsigned]⟩
      rw [hsigned, List.drop_left]
      exact takeWhile_eq_nil hrest
    have hpart : realPart (start + ds.length) (f ++ (e :: sg ++ rest)) =
        .error ⟨.digitExpected, start + ds.length + f.length + (1 + sg.length)⟩ := by
      simp only [realPart, fraction_append_of_fraction hf hmark, List.drop_left, hexp]
    have hsplit : ds ++ f ++ e :: sg ++ rest = ds ++ (f ++ (e :: sg ++ rest)) := by
      simp only [List.append_assoc]
    rw [hsplit, number_digits_append hds fun c hc => beginsPart_of_mem hf hmark hc, hpart]
    simp only [List.length_append, List.length_cons]
    congr 2
    omega

/-- **When no number is read**: a digit is missing after the mark of a hexadecimal number or of an exponent. -/
theorem number_eq_error_iff (hdigit : c.isDigit = true) : number start (c :: cs) = .error fault ↔
    ∃ front rest, c :: cs = front ++ rest ∧ MissesDigit front rest ∧
      fault = ⟨.digitExpected, start + front.length⟩ := by
  constructor
  · exact missesDigit_of_number hdigit
  · rintro ⟨front, rest, hcs, hmisses, rfl⟩
    rw [hcs]
    exact number_of_missesDigit hmisses

/-- **What is read is the longest number** that stands there, and no other one is as long. -/
theorem number_longest (hdigit : c.isDigit = true) (h : number start (c :: cs) = .ok (kind, w)) :
    Numeral kind w ∧ w <+: c :: cs ∧
      ∀ other v, Numeral other v → v <+: c :: cs → v <+: w ∧ (v = w → other = kind) := by
  have hread := number_isPrefix h
  refine ⟨numeral_of_number hdigit h, hread, fun other v hv hprefix => ?_⟩
  rcases List.prefix_or_prefix_of_prefix hread hprefix with hlonger | hshorter
  · -- From the longer number alone the same would be read, but it is read as a whole.
    have hagain : number start v = .ok (kind, w) := number_of_isPrefix hprefix h hlonger
    rw [number_of_numeral hv] at hagain
    cases hagain
    exact ⟨List.prefix_refl _, fun _ => rfl⟩
  · refine ⟨hshorter, fun heq => ?_⟩
    rw [heq] at hv hprefix
    have hagain : number start w = .ok (kind, w) := number_of_isPrefix hprefix h (List.prefix_refl w)
    rw [number_of_numeral hv] at hagain
    cases hagain
    rfl

/-! ## §6. Numbers in a text. -/

/-- What stands before a missing digit takes one byte a character. -/
theorem MissesDigit.byteSize_eq {front : List Char} (h : MissesDigit front rest) :
    byteSize front = front.length := by
  have hdigits : ∀ {ds : List Char}, Digits ds → byteSize ds = ds.length := fun hds =>
    byteSize_eq_length fun c hc => utf8Size_of_isDigit (hds.2 c hc)
  -- Digits, marks and signs are all characters of ASCII.
  cases h with
  | hexadecimal hx =>
    rw [byteSize_cons, byteSize_cons, utf8Size_of_toLower hx (by decide)]
    rfl
  | @exponent ds f sg _ e hds hf he hsign =>
    have hfraction : byteSize f = f.length := by
      rcases hf with rfl | ⟨ds, hds, rfl⟩
      · rfl
      · rw [byteSize_cons, hdigits hds, List.length_cons, Nat.add_comm]
        rfl
    have hsigned : byteSize sg = sg.length := by
      rcases hsign with rfl | rfl | rfl <;> rfl
    rw [byteSize_append, byteSize_append, byteSize_cons, hdigits hds, hfraction, hsigned,
      utf8Size_of_toLower he (by decide)]
    simp only [List.length_append, List.length_cons]
    omega

/-- The digits one by one. -/
theorem mem_digits (h : c.isDigit = true) : c ∈ ['0', '1', '2', '3', '4', '5', '6', '7', '8', '9'] := by
  have hall : ∀ n ∈ List.range 58, 48 ≤ n → Char.ofNat n ∈ ['0', '1', '2', '3', '4', '5', '6', '7', '8', '9'] := by
    decide +kernel
  simp only [Char.isDigit, Bool.and_eq_true, decide_eq_true_eq, UInt32.le_iff_toNat_le] at h
  rw [← Char.ofNat_toNat c]
  exact hall _ (List.mem_range.2 (Nat.lt_succ_of_le h.2)) h.1

/-- What starts with a digit is no blank, and read as a number. -/
theorem lexeme_of_isDigit (previous : Option TokenKind) (start : Nat) (h : c.isDigit = true) (cs : List Char) :
    isBlank c = false ∧ Scan.lexeme previous start c cs = number start (c :: cs) := by
  have hclass : isBlank c = false ∧ symbol? c cs.head? = none ∧ (c = '"' || c = '\'') = false ∧
      startsWord c = false := by
    have hc := mem_digits h
    simp only [List.mem_cons, List.not_mem_nil, or_false] at hc
    rcases hc with rfl | rfl | rfl | rfl | rfl | rfl | rfl | rfl | rfl | rfl <;>
      exact ⟨rfl, rfl, by decide, by decide⟩
  obtain ⟨hblank, hsymbol, hquote, hword⟩ := hclass
  exact ⟨hblank, lexeme_eq_iff.2 (.number hsymbol (by simpa using hquote) hword h rfl)⟩

/-- What is read as a number starts with a digit. -/
theorem number_of_lexeme {previous : Option TokenKind} (h : Scan.lexeme previous start c cs = .ok (kind, w))
    (hkind : kind.isNumber = true) : c.isDigit = true ∧ number start (c :: cs) = .ok (kind, w) := by
  cases lexeme_eq_iff.1 h with
  | symbol _ hsymbol hread =>
    cases hread
    cases (TokenKind.isSymbol_of_isNumber hkind).symm.trans (isSymbol_of_symbol? hsymbol)
  | literal _ _ hread =>
    obtain ⟨rfl, -, -⟩ := quoted_eq_ok_iff.1 hread
    cases hkind
  | word _ _ _ hread =>
    obtain ⟨rfl, -, -⟩ := word_eq_ok_iff.1 hread
    have hnone : ∀ kind ∈ .identifier :: TokenKind.wordSymbols, kind.isNumber = false := by decide
    cases (hnone _ (wordKind_mem _ _)).symm.trans hkind
  | number _ _ _ hdigit hread => exact ⟨hdigit, hread⟩
  | other _ _ _ _ hread => cases hread

/-- **A token that is a number is one of the grammar.** -/
theorem numeral_of_token {previous : Option TokenKind} {t : Token}
    (h : token previous start cs = .ok (t, rest)) (hkind : t.kind.isNumber = true) :
    Numeral t.kind t.text.toList := by
  rcases token_cases h with ⟨-, rfl, -⟩ | ⟨c, tail, kind, lexeme, -, hlexeme, rfl, -⟩
  · cases hkind
  · obtain ⟨hdigit, hnumber⟩ := number_of_lexeme hlexeme hkind
    rw [String.toList_ofList]
    exact numeral_of_number hdigit hnumber

/-- The token where a digit stands. -/
theorem tokenAt_of_isDigit {text : List Char} {position : Nat} (previous : Option TokenKind)
    (hposition : dropBytes? position text = some (c :: cs)) (h : c.isDigit = true) :
    tokenAt text position previous =
      match number position (c :: cs) with
      | .error fault => .error fault
      | .ok (kind, w) => .ok ⟨kind, String.ofList w, position⟩ := by
  obtain ⟨hblank, hlexeme⟩ := lexeme_of_isDigit previous position h cs
  simp only [tokenAt, hposition, token_cons hblank, hlexeme]
  cases number position (c :: cs) <;> rfl

/-- **When the scan fails where a digit stands.** -/
theorem tokenAt_eq_error_iff {text : List Char} {position : Nat} (previous : Option TokenKind)
    (hposition : dropBytes? position text = some (c :: cs)) (h : c.isDigit = true) :
    tokenAt text position previous = .error fault ↔
      ∃ front rest, c :: cs = front ++ rest ∧ MissesDigit front rest ∧
        fault = ⟨.digitExpected, position + byteSize front⟩ := by
  have hcases : tokenAt text position previous = .error fault ↔ number position (c :: cs) = .error fault := by
    rw [tokenAt_of_isDigit previous hposition h]
    cases number position (c :: cs) <;> simp
  rw [hcases, number_eq_error_iff h]
  constructor
  · rintro ⟨front, rest, hcs, hmisses, rfl⟩
    exact ⟨front, rest, hcs, hmisses, by rw [hmisses.byteSize_eq]⟩
  · rintro ⟨front, rest, hcs, hmisses, rfl⟩
    exact ⟨front, rest, hcs, hmisses, by rw [hmisses.byteSize_eq]⟩

/-- **What the scan reads where a digit stands**: the longest number, with its kind. -/
theorem tokenAt_longest {text : List Char} {position : Nat} {previous : Option TokenKind} {t : Token}
    (hposition : dropBytes? position text = some (c :: cs)) (h : c.isDigit = true)
    (ht : tokenAt text position previous = .ok t) :
    t.start = position ∧ Numeral t.kind t.text.toList ∧ t.text.toList <+: c :: cs ∧
      ∀ kind v, Numeral kind v → v <+: c :: cs → v <+: t.text.toList ∧ (v = t.text.toList → kind = t.kind) := by
  rw [tokenAt_of_isDigit previous hposition h] at ht
  split at ht
  · cases ht
  · rename_i hnumber
    cases ht
    refine ⟨rfl, ?_⟩
    rw [String.toList_ofList]
    exact number_longest h hnumber

end TypeAhead.Scan
