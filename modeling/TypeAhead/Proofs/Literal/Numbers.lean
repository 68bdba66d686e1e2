/-
  TypeAhead.Proofs.Literal.Numbers — WHAT TYPE A NUMBER HAS.

  The scanner splits numbers off a text by one grammar, and typing takes their texts
  apart again by another one.  Here both are put together.  What the scanner calls a
  real number has the type that its suffix names.  What it calls an integer has the
  first type that holds its value, of those that its suffix leaves open, however many
  digits there are.  Either may have a minus before it.

      realTypeBy?_of_decimal     the type that a suffix names
      isDouble_of_decimal        decimal numbers are read
      WritesInteger              what number an integer literal writes
      integerType?_of_writes     the first type that holds it
      isSome_of_minus            what has a type behind a minus has one without it
-/
import Mathlib.Data.List.Find
import Mathlib.Data.Nat.Digits.Defs
import TypeAhead.Literal.Number
import TypeAhead.Proofs.Token.Numerals

namespace TypeAhead.Literal

open Scan

variable {c : Char} {cs d s ds : List Char}

/-! ## §1. Real numbers. -/

/-- The type that the suffix of a real number names. -/
def realTypeOf (s : List Char) : String :=
  match s.map Char.toLower with
  | ['f'] => Known.single
  | ['m'] => Known.decimal
  | _ => Known.double

/-- What ends in digits ends in a digit. -/
theorem exists_last_of_digits (hds : Digits ds) (front : List Char) :
    ∃ first c, front ++ ds = first ++ [c] ∧ c.isDigit = true := by
  refine ⟨front ++ ds.dropLast, ds.getLast hds.1, ?_, hds.2 _ (List.getLast_mem hds.1)⟩
  rw [List.append_assoc, List.dropLast_concat_getLast]

/-- A decimal number ends with a digit. -/
theorem exists_last_of_decimal (hd : Decimal d) : ∃ first c, d = first ++ [c] ∧ c.isDigit = true := by
  obtain ⟨ds, f, e, hds, hf, he, rfl⟩ := hd
  rcases he with rfl | ⟨e, sg, ds', -, -, hds', rfl⟩
  · rcases hf with rfl | ⟨ds', hds', rfl⟩
    · simpa using exists_last_of_digits hds []
    · simpa using exists_last_of_digits hds' (ds ++ ['.'])
  · simpa using exists_last_of_digits hds' (ds ++ f ++ e :: sg)

/-- And starts with one. -/
theorem exists_head_of_decimal (hd : Decimal d) : ∃ c rest, d = c :: rest ∧ c.isDigit = true := by
  obtain ⟨ds, f, e, hds, -, -, rfl⟩ := hd
  obtain ⟨c, ds, rfl⟩ := List.exists_cons_of_ne_nil hds.1
  exact ⟨c, ds ++ f ++ e, rfl, hds.2 c List.mem_cons_self⟩

/-- The suffix is told from the number before it. -/
theorem splitReal_of_decimal (hd : Decimal d) (hs : s = [] ∨ RealMark s) :
    splitReal (d ++ s) = (d, realTypeOf s) := by
  unfold splitReal
  rcases hs with rfl | ⟨c, rfl, hc⟩
  · obtain ⟨first, c, rfl, hdigit⟩ := exists_last_of_decimal hd
    rw [List.append_nil, List.getLast?_concat, Option.map_some, toLower_of_isDigit hdigit]
    have hc := mem_digits hdigit
    simp only [List.mem_cons, List.not_mem_nil, or_false] at hc
    rcases hc with rfl | rfl | rfl | rfl | rfl | rfl | rfl | rfl | rfl | rfl <;> rfl
  · rw [List.getLast?_concat, Option.map_some, List.dropLast_concat]
    simp only [List.mem_cons, List.not_mem_nil, or_false] at hc
    rcases hc with hc | hc | hc <;> simp [realTypeOf, hc]

/-- **The type of a real number is the one that its suffix names**, with a minus before it or not, if what
stands before the suffix is read as a number. -/
theorem realTypeBy?_of_decimal {accepts : List Char → Bool} (hd : Decimal d) (hs : s = [] ∨ RealMark s)
    (haccepts : accepts d = true) :
    realTypeBy? accepts (String.ofList (d ++ s)) = some (realTypeOf s) ∧
      realTypeBy? accepts ("-" ++ String.ofList (d ++ s)) = some (realTypeOf s) := by
  have hunsigned : ((d ++ s).head? == some '-') = false := by
    obtain ⟨c, rest, rfl, hdigit⟩ := exists_head_of_decimal hd
    have hne : c ≠ '-' := by
      rintro rfl
      cases hdigit
    simpa using hne
  constructor
  · simp only [realTypeBy?, String.toList_ofList, hunsigned, Bool.false_eq_true, if_false,
      splitReal_of_decimal hd hs, haccepts, if_true]
  · have hsigned : ("-" ++ String.ofList (d ++ s)).toList = '-' :: (d ++ s) := by
      simp only [String.toList_append, String.toList_ofList]
      rfl
    simp only [realTypeBy?, hsigned, List.head?_cons, beq_self_eq_true, if_true, List.drop_succ_cons,
      List.drop_zero, splitReal_of_decimal hd hs, haccepts]

/-- **Decimal numbers are read** as numbers of double precision. -/
theorem isDouble_of_decimal (hd : Decimal d) : isDouble d = true := by
  have hunsigned : sign d = [] := by
    obtain ⟨c, rest, rfl, hdigit⟩ := exists_head_of_decimal hd
    have hsign : c ≠ '+' ∧ c ≠ '-' := by
      constructor <;> (rintro rfl; cases hdigit)
    simp [sign, hsign.1, hsign.2]
  -- Digits, a fraction and an exponent are taken off one after the other.
  have hdecimal : isDecimal d = true := by
    obtain ⟨ds, f, e, hds, hf, he, rfl⟩ := hd
    have hmark : ∀ c ∈ e.head?, BeginsMark c := fun c hc =>
      beginsMark_of_mem (s := []) he (.inl rfl) (by rwa [List.append_nil])
    have hwhole : (ds ++ (f ++ e)).takeWhile Char.isDigit = ds :=
      takeWhile_run hds.2 fun c hc => (beginsPart_of_mem hf hmark hc).isDigit
    have hpoint : pointPart (f ++ e) = f := by
      rcases hf with rfl | ⟨ds, hds, rfl⟩
      · cases e with
        | nil => rfl
        | cons c e => simp [pointPart, (hmark c rfl).ne_dot]
      · have hrun : (ds ++ e).takeWhile Char.isDigit = ds := takeWhile_run hds.2 fun c hc => (hmark c hc).isDigit
        simp [pointPart, hrun]
    have hexp : exponent e = .ok e := by simpa using exponent_append_of_exponent (s := []) he (.inl rfl)
    rw [List.append_assoc]
    simp [isDecimal, hwhole, hpoint, hexp, hds.1, Nat.add_assoc]
  simp only [isDouble, hunsigned, List.length_nil, List.drop_zero, hdecimal, Bool.true_or]

/-! ## §2. Integers. -/

/-- `WritesInteger w n suffix`: the literal writes the number, and ends with the suffix, which is in lower
case. -/
inductive WritesInteger : List Char → Nat → List Char → Prop where
  | decimal {ds s : List Char} (hds : Digits ds) (hs : IntegerMark s) :
      WritesInteger (ds ++ s) (Nat.ofDigits 10 (ds.reverse.map digitValue)) (s.map Char.toLower)
  | hexadecimal {x : Char} {ds s : List Char} (hx : x.toLower = 'x') (hds : HexDigits ds)
      (hs : IntegerMark s) :
      WritesInteger ('0' :: x :: ds ++ s) (Nat.ofDigits 16 (ds.reverse.map digitValue)) (s.map Char.toLower)

/-- Every integer of the grammar writes a number. -/
theorem exists_writesInteger (h : Numeral .integerLiteral cs) : ∃ n suffix, WritesInteger cs n suffix := by
  cases h with
  | decimal hds hs => exact ⟨_, _, .decimal hds hs⟩
  | hexadecimal hx hds hs => exact ⟨_, _, .hexadecimal hx hds hs⟩

/-- The integer types with their ranges: the least number and the one past the greatest. -/
def integerRanges : List (String × Int × Int) :=
  [(Known.int32, -2 ^ 31, 2 ^ 31), (Known.uint32, 0, 2 ^ 32), (Known.int64, -2 ^ 63, 2 ^ 63),
    (Known.uint64, 0, 2 ^ 64)]

/-- Whether the type of the name holds the number. -/
def holds (v : Int) (name : String) : Bool :=
  (integerRanges.lookup name).any fun (least, bound) => least ≤ v && v < bound

/-- The types that a suffix leaves open, the first choice first. -/
def openTypes (negative : Bool) (suffix : List Char) : List String :=
  match negative, suffix with
  | false, [] => [Known.int32, Known.uint32, Known.int64, Known.uint64]
  | false, ['u'] => [Known.uint32, Known.uint64]
  | false, ['l'] => [Known.int64, Known.uint64]
  | false, ['u', 'l'] | false, ['l', 'u'] => [Known.uint64]
  | true, [] => [Known.int32, Known.int64]
  | true, ['l'] => [Known.int64]
  | _, _ => []

/-- The value of digits, from the first one on and from the last one on. -/
theorem digitsValue_eq_ofDigits (base : Nat) (ds : List Char) :
    digitsValue base ds = Nat.ofDigits base (ds.reverse.map digitValue) := by
  -- By induction on the digits from the last one on, as that counts least.
  induction ds using List.reverseRecOn with
  | nil => rfl
  | append_singleton ds c ih =>
    have hstep : digitsValue base (ds ++ [c]) = digitsValue base ds * base + digitValue c := by
      simp only [digitsValue, List.foldl_append, List.foldl_cons, List.foldl_nil]
    rw [hstep, ih, List.reverse_concat, List.map_cons, Nat.ofDigits_cons]
    rw [Nat.mul_comm, Nat.add_comm]

/-- Digits have the value that they are written for, up to the bound past which no type holds it. -/
theorem magnitude?_eq {base : Nat} (positive : 0 < base) {isDigit : Char → Bool} (hne : ds ≠ [])
    (hds : ∀ c ∈ ds, isDigit c = true) :
    magnitude? base isDigit ds = some (min Integer.bound (Nat.ofDigits base (ds.reverse.map digitValue))) := by
  have hall : ds.all isDigit = true := List.all_eq_true.2 hds
  have hempty : ds.isEmpty = false := by simpa using hne
  rw [magnitude?, hall, hempty, valueWithin_eq_min positive, digitsValue_eq_ofDigits]
  rfl

/-- No hexadecimal digit is a mark of an integer. -/
theorem isIntegerMark_of_isHexDigit (h : isHexDigit c = true) : isIntegerMark c = false := by
  have hlower := isHexDigit_toLower h
  cases hmark : isIntegerMark c with
  | false => rfl
  | true =>
    simp only [isIntegerMark, Bool.or_eq_true, decide_eq_true_eq] at hmark
    rcases hmark with hmark | hmark
    · rw [hmark] at hlower
      cases hlower
    · rw [hmark] at hlower
      cases hlower

/-- Digits are hexadecimal ones. -/
theorem isHexDigit_of_isDigit (h : c.isDigit = true) : isHexDigit c = true := by
  simp [isHexDigit, h]

/-- A suffix is made of letters that are trimmed. -/
theorem isIntegerMark_of_mem (hs : IntegerMark s) (hc : c ∈ s) : isIntegerMark c = true := by
  have hlower : c.toLower ∈ s.map Char.toLower := List.mem_map_of_mem hc
  simp only [IntegerMark, List.mem_cons, List.not_mem_nil, or_false] at hs
  rw [isIntegerMark, Bool.or_eq_true, decide_eq_true_eq, decide_eq_true_eq]
  rcases hs with hs | hs | hs | hs | hs <;> rw [hs] at hlower <;> simp at hlower <;> simp [hlower, or_comm]

/-- The suffix is told from the digits before it. -/
theorem marks_eq (hds : ds ≠ []) (hhex : ∀ c ∈ ds, isHexDigit c = true) (hs : IntegerMark s) (front : List Char) :
    (((front ++ ds ++ s).reverse.takeWhile isIntegerMark).reverse) = s := by
  have hrun : (s.reverse ++ (front ++ ds).reverse).takeWhile isIntegerMark = s.reverse := by
    refine takeWhile_run (fun c hc => isIntegerMark_of_mem hs (List.mem_reverse.1 hc)) fun c hc => ?_
    rw [List.head?_reverse, List.getLast?_append_of_ne_nil _ hds] at hc
    exact isIntegerMark_of_isHexDigit (hhex c (List.mem_of_getLast? hc))
  rw [List.reverse_append, hrun, List.reverse_reverse]

/-- The mark of hexadecimal digits is written in either case. -/
theorem eq_or_eq_of_toLower (h : c.toLower = 'x') : c = 'x' ∨ c = 'X' := by
  have hall : ∀ n ∈ List.range 91, (Char.ofNat n).toLower = 'x' → Char.ofNat n = 'X' := by decide +kernel
  by_cases hupper : c.val ≥ 'A'.val ∧ c.val ≤ 'Z'.val
  · right
    have hlow : c.toNat < 91 := Nat.lt_succ_of_le (UInt32.le_iff_toNat_le.1 hupper.2)
    rw [← Char.ofNat_toNat c] at h ⊢
    exact hall _ (List.mem_range.2 hlow) h
  · left
    unfold Char.toLower at h
    rwa [dif_neg hupper] at h

/-- An integer literal taken apart, without the minus that may stand before it. -/
theorem ofText?_of_body {text : String} {negative : Bool} {n : Nat} {suffix body : List Char}
    (hnegative : (text.toList.head? == some '-') = negative)
    (hbody : (if negative = true then text.toList.drop 1 else text.toList) = body)
    (h : WritesInteger body n suffix) :
    Integer.ofText? text = some ⟨negative, min Integer.bound n, suffix⟩ := by
  unfold Integer.ofText?
  dsimp only
  rw [hnegative, hbody]
  -- Decimal or hexadecimal: the digits end where the suffix begins.
  cases h with
  | @decimal ds s hds hs =>
    have hmarks := marks_eq hds.1 (fun c hc => isHexDigit_of_isDigit (hds.2 c hc)) hs []
    rw [List.nil_append] at hmarks
    have hdigits : (ds ++ s).take ((ds ++ s).length - s.length) = ds := by simp
    rw [hmarks, hdigits]
    refine congrArg (Option.map fun magnitude => (⟨negative, magnitude, s.map Char.toLower⟩ : Integer))
      (?_ : _ = some (min Integer.bound _))
    -- The second character is no mark of hexadecimal digits, since it is a digit.
    split
    · rename_i hex
      cases hds.2 'x' (by simp)
    · rename_i hex
      cases hds.2 'X' (by simp)
    · exact magnitude?_eq (by decide) hds.1 hds.2
  | @hexadecimal x ds s hx hds hs =>
    have hmarks := marks_eq hds.1 hds.2 hs ['0', x]
    have hdigits : (['0', x] ++ ds ++ s).take ((['0', x] ++ ds ++ s).length - s.length) = '0' :: x :: ds := by
      rw [List.length_append, Nat.add_sub_cancel, List.take_left]
      rfl
    have hsplit : '0' :: x :: ds ++ s = ['0', x] ++ ds ++ s := rfl
    rw [hsplit, hmarks, hdigits]
    refine congrArg (Option.map fun magnitude => (⟨negative, magnitude, s.map Char.toLower⟩ : Integer))
      (?_ : _ = some (min Integer.bound _))
    rcases eq_or_eq_of_toLower hx with rfl | rfl
    · exact magnitude?_eq (by decide) hds.1 hds.2
    · exact magnitude?_eq (by decide) hds.1 hds.2

/-- There are five suffixes, the empty one included. -/
theorem suffix_of_writes {w suffix : List Char} {n : Nat} (h : WritesInteger w n suffix) :
    suffix ∈ [[], ['u'], ['u', 'l'], ['l'], ['l', 'u']] := by
  cases h with
  | decimal _ hs => exact hs
  | hexadecimal _ _ hs => exact hs

/-- For each of them, the types are tried in the order in which they are open. -/
theorem map_types {suffix : List Char} (hsuffix : suffix ∈ [[], ['u'], ['u', 'l'], ['l'], ['l', 'u']])
    (negative : Bool) : (Integer.types negative suffix).map Prod.snd = openTypes negative suffix := by
  revert suffix negative
  decide

/-- For each type that is left open, the bound tells whether it holds the number. -/
theorem lt_bound_iff {suffix : List Char} (hsuffix : suffix ∈ [[], ['u'], ['u', 'l'], ['l'], ['l', 'u']])
    (negative : Bool) (n : Nat) {bound : Nat} {name : String} (h : (bound, name) ∈ Integer.types negative suffix) :
    min Integer.bound n < bound ↔ holds (if negative = true then -n else n) name = true := by
  -- What each of the four types holds, with its bounds written out.
  have hholds : ∀ v : Int, (holds v Known.int32 = true ↔ -2147483648 ≤ v ∧ v < 2147483648) ∧
      (holds v Known.uint32 = true ↔ 0 ≤ v ∧ v < 4294967296) ∧
      (holds v Known.int64 = true ↔ -9223372036854775808 ≤ v ∧ v < 9223372036854775808) ∧
      (holds v Known.uint64 = true ↔ 0 ≤ v ∧ v < 18446744073709551616) := by
    intro v
    simp [holds, integerRanges, Known.int32, Known.uint32, Known.int64, Known.uint64, List.lookup_cons]
  have hbound : Integer.bound = 18446744073709551616 := rfl
  rw [hbound]
  -- Below zero the bounds are one higher and only the signed types are tried.
  cases negative with
  | true =>
    have hall : ∀ suffix ∈ [[], ['u'], ['u', 'l'], ['l'], ['l', 'u']], ∀ entry ∈ Integer.types true suffix,
        entry ∈ [(2147483649, Known.int32), (9223372036854775809, Known.int64)] := by decide
    have hsigned := hall suffix hsuffix _ h
    simp only [List.mem_cons, Prod.mk.injEq, List.not_mem_nil, or_false] at hsigned
    rcases hsigned with ⟨rfl, rfl⟩ | ⟨rfl, rfl⟩
    · rw [(hholds _).1]
      simp only [if_true]
      omega
    · rw [(hholds _).2.2.1]
      simp only [if_true]
      omega
  | false =>
    have hall : ∀ suffix ∈ [[], ['u'], ['u', 'l'], ['l'], ['l', 'u']], ∀ entry ∈ Integer.types false suffix,
        entry ∈ [(2147483648, Known.int32), (4294967296, Known.uint32), (9223372036854775808, Known.int64),
          (18446744073709551616, Known.uint64)] := by decide
    have hunsigned := hall suffix hsuffix _ h
    simp only [List.mem_cons, Prod.mk.injEq, List.not_mem_nil, or_false] at hunsigned
    rcases hunsigned with ⟨rfl, rfl⟩ | ⟨rfl, rfl⟩ | ⟨rfl, rfl⟩ | ⟨rfl, rfl⟩
    · rw [(hholds _).1]
      simp only [Bool.false_eq_true, if_false]
      omega
    · rw [(hholds _).2.1]
      simp only [Bool.false_eq_true, if_false]
      omega
    · rw [(hholds _).2.2.1]
      simp only [Bool.false_eq_true, if_false]
      omega
    · rw [(hholds _).2.2.2]
      simp only [Bool.false_eq_true, if_false]
      omega

/-- The first type of which the number is below the bound is the first that holds it. -/
theorem find?_types {suffix : List Char} (hsuffix : suffix ∈ [[], ['u'], ['u', 'l'], ['l'], ['l', 'u']])
    (negative : Bool) (n : Nat) :
    ((Integer.types negative suffix).find? fun entry => min Integer.bound n < entry.1).map Prod.snd =
      (openTypes negative suffix).find? (holds (if negative = true then -n else n)) := by
  rw [← map_types hsuffix, List.find?_map]
  congr 1
  apply List.find?_congr
  rintro ⟨bound, name⟩ h
  rw [Function.comp_apply, Bool.eq_iff_iff, decide_eq_true_iff]
  exact lt_bound_iff hsuffix negative n h

/-- An integer begins with a digit. -/
theorem exists_head_of_writes {w suffix : List Char} {n : Nat} (h : WritesInteger w n suffix) :
    ∃ c rest, w = c :: rest ∧ c.isDigit = true := by
  cases h with
  | @decimal ds s hds =>
    obtain ⟨c, ds, rfl⟩ := List.exists_cons_of_ne_nil hds.1
    exact ⟨c, ds ++ s, rfl, hds.2 c List.mem_cons_self⟩
  | @hexadecimal x ds s => exact ⟨'0', x :: ds ++ s, rfl, rfl⟩

/-- **An integer has the first type that holds its value**, of those that its suffix leaves open, with a minus
before it or not. -/
theorem integerType?_of_writes {w suffix : List Char} {n : Nat} (h : WritesInteger w n suffix) :
    integerType? (String.ofList w) = (openTypes false suffix).find? (holds n) ∧
      integerType? ("-" ++ String.ofList w) = (openTypes true suffix).find? (holds (-n)) := by
  -- The same for both signs: the magnitude is compared with the bounds in turn.
  have hcore : ∀ (text : String) (negative : Bool), (text.toList.head? == some '-') = negative →
      (if negative = true then text.toList.drop 1 else text.toList) = w →
      integerType? text = (openTypes negative suffix).find? (holds (if negative = true then -n else n)) := by
    intro text negative hnegative hbody
    rw [← find?_types (suffix_of_writes h), integerType?, ofText?_of_body hnegative hbody h]
    simp only [bind, Option.bind]
    cases (Integer.types negative suffix).find? fun entry => min Integer.bound n < entry.1 <;> rfl
  constructor
  · refine hcore (String.ofList w) false ?_ String.toList_ofList
    obtain ⟨c, rest, rfl, hdigit⟩ := exists_head_of_writes h
    have hne : c ≠ '-' := by
      rintro rfl
      cases hdigit
    simpa using hne
  · have hsigned : ("-" ++ String.ofList w).toList = '-' :: w := by
      simp only [String.toList_append, String.toList_ofList]
      rfl
    refine hcore ("-" ++ String.ofList w) true ?_ ?_
    · rw [hsigned]
      rfl
    · rw [hsigned]
      rfl

/-! ## §3. With and without a minus. -/

/-- Behind a minus, no other minus is read. -/
theorem ofText?_of_minus {text : String} {i : Integer} (h : Integer.ofText? ("-" ++ text) = some i) :
    i.negative = true ∧ Integer.ofText? text = some { i with negative := false } := by
  have hsigned : ("-" ++ text).toList = '-' :: text.toList := by
    rw [String.toList_append]
    rfl
  unfold Integer.ofText? at h ⊢
  simp only [hsigned, List.head?_cons, beq_self_eq_true, if_true, List.drop_succ_cons, List.drop_zero] at h
  obtain ⟨magnitude, hmagnitude, rfl⟩ := Option.map_eq_some_iff.1 h
  refine ⟨rfl, ?_⟩
  cases hhead : text.toList.head? == some '-' with
  | false => simp only [hhead, Bool.false_eq_true, if_false, hmagnitude, Option.map_some]
  | true =>
    -- The second minus would be the first of the digits.
    obtain ⟨cs, hcs⟩ : ∃ cs, text.toList = '-' :: cs := by
      cases htext : text.toList with
      | nil => simp [htext] at hhead
      | cons c cs => exact ⟨cs, by simpa [htext] using hhead⟩
    rw [hcs] at hmagnitude
    -- What is taken off as a suffix leaves the minus, which is none of its letters.
    have hmarks : (('-' :: cs).reverse.takeWhile isIntegerMark).length ≤ cs.length := by
      rw [List.reverse_cons, List.takeWhile_append]
      split
      · simp [isIntegerMark]
      · have hle : (cs.reverse.takeWhile isIntegerMark).length ≤ cs.reverse.length :=
          (List.takeWhile_prefix _).length_le
        simpa using hle
    obtain ⟨k, hk⟩ : ∃ k, ('-' :: cs).length -
        ((('-' :: cs).reverse.takeWhile isIntegerMark).reverse).length = k + 1 := by
      rw [List.length_cons, List.length_reverse]
      exact ⟨cs.length - (('-' :: cs).reverse.takeWhile isIntegerMark).length, by omega⟩
    rw [hk, List.take_succ_cons] at hmagnitude
    simp [magnitude?] at hmagnitude

/-- An integer has a type if one of those that are open holds it. -/
theorem isSome_integerType?_iff {text : String} : (integerType? text).isSome = true ↔
    ∃ i, Integer.ofText? text = some i ∧ ∃ entry ∈ Integer.types i.negative i.suffix, i.magnitude < entry.1 := by
  unfold integerType?
  cases hread : Integer.ofText? text with
  | none => simp
  | some i =>
    simp only [bind, Option.bind]
    split
    · rename_i hnone
      rw [List.find?_eq_none] at hnone
      simpa using hnone
    · rename_i entry hfound
      have hbelow := List.find?_some hfound
      simp only [decide_eq_true_iff] at hbelow
      simpa using ⟨entry.1, ⟨entry.2, List.mem_of_find?_eq_some hfound⟩, hbelow⟩

/-- The suffixes that leave a type open behind a minus leave the greatest one open without it. -/
theorem uint64_mem_types (suffix : List Char) : ∀ entry ∈ Integer.types true suffix,
    entry.1 ≤ Integer.bound ∧ (Integer.bound, Known.uint64) ∈ Integer.types false suffix := by
  match suffix with
  | [] => decide
  | [c] =>
    by_cases hc : c = 'l'
    · subst hc
      decide
    · simp [Integer.types, hc]
  | _ :: _ :: _ => simp [Integer.types]

/-- An integer that has a type behind a minus has one without it. -/
theorem isSome_of_minus {text : String} (h : (integerType? ("-" ++ text)).isSome = true) :
    (integerType? text).isSome = true := by
  obtain ⟨i, hread, entry, hentry, hbelow⟩ := isSome_integerType?_iff.1 h
  obtain ⟨hnegative, hread⟩ := ofText?_of_minus hread
  rw [hnegative] at hentry
  obtain ⟨hbound, hmem⟩ := uint64_mem_types _ _ hentry
  exact isSome_integerType?_iff.2 ⟨_, hread, _, hmem, Nat.lt_of_lt_of_le hbelow hbound⟩

end TypeAhead.Literal
