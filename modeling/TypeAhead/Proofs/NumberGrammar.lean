/-
  TypeAhead.Proofs.NumberGrammar — NUMBERS FROM THE SCAN TO THEIR TYPES.

  Where a digit stands in a text, the scanner reads the longest number of the grammar,
  or it finds that a digit is missing.  It tells integers from real numbers by what is
  behind their digits, and typing tells the type of a real number by its suffix.  Both
  agree on what a suffix is, so there is no real number that typing cannot read.

      numeral_of_reaches      numbers of a text
      compile_ne_invalidReal  typing reads every real number
      number_grammar          all of it
-/
import TypeAhead.Proofs.Literal.Numbers
import TypeAhead.Proofs.Typing.Confinement

namespace TypeAhead

open Text Scan Literal

variable {text : List Char} {past : List TokenKind} {c : Cursor} {w : List Char}

/-- A number of a text is one of the grammar. -/
theorem numeral_of_reaches (h : Reaches text past c) (hkind : c.current.kind.isNumber = true) :
    Numeral c.current.kind c.current.text.toList := by
  obtain ⟨previous, start, cs, htoken⟩ := h.token
  exact numeral_of_token htoken hkind

/-- The type that the suffix of a real number names, or double precision without one. -/
def NamesRealType (w : List Char) (name : String) : Prop :=
  ∃ d s, w = d ++ s ∧ Decimal d ∧ (s = [] ∧ name = Known.double ∨ ∃ c, s = [c] ∧
    (c.toLower, name) ∈ [('f', Known.single), ('d', Known.double), ('m', Known.decimal)])

/-- **A real number has the type that its suffix names**, if decimal numbers are read. -/
theorem realTypeBy?_of_numeral (h : Numeral .realLiteral w) : ∃ name, NamesRealType w name ∧
    ∀ accepts : List Char → Bool, (∀ d, Decimal d → accepts d = true) →
      realTypeBy? accepts (String.ofList w) = some name ∧
        realTypeBy? accepts ("-" ++ String.ofList w) = some name := by
  cases h with
  | @real ds f e s hds hf he hs =>
    have hd : Decimal (ds ++ f ++ e) := ⟨ds, f, e, hds, hf, he, rfl⟩
    refine ⟨realTypeOf s, ⟨ds ++ f ++ e, s, rfl, hd, ?_⟩, fun accepts haccepts =>
      realTypeBy?_of_decimal hd hs (haccepts _ hd)⟩
    rcases hs with rfl | ⟨c, rfl, hc⟩
    · exact .inl ⟨rfl, rfl⟩
    · refine .inr ⟨c, rfl, ?_⟩
      simp only [List.mem_cons, List.not_mem_nil, or_false] at hc
      rcases hc with hc | hc | hc <;> simp [realTypeOf, hc]

/-- **Typing reads every real number**: no text is refused for one. -/
theorem compile_ne_invalidReal (s : Typing.Setting) (text literal : String) (position : Nat) :
    s.compile text ≠ .error (.fault ⟨.invalidReal literal, position⟩) := by
  intro h
  have hcases := Typing.compile_cases s text
  rw [h] at hcases
  obtain ⟨hwrites, hnone⟩ := hcases
  -- The literal is a real number of the text, possibly with a minus before it.
  obtain ⟨word, hword, hliteral⟩ : ∃ word : String, Numeral .realLiteral word.toList ∧
      (literal = word ∨ literal = "-" ++ word) := by
    rcases hwrites with ⟨past, c, hreached, hcurrent⟩ | ⟨past, m, r, hreached, hminus, -, hnext, hkind, hliteral⟩
    · have hnumeral := numeral_of_reaches hreached (by rw [hcurrent]; rfl)
      rw [hcurrent] at hnumeral
      exact ⟨literal, hnumeral, .inl rfl⟩
    · have hreached' := hreached.next (Token.isFinish_of_kind hminus nofun) hnext
      have hnumeral := numeral_of_reaches hreached' (by rw [hkind]; rfl)
      rw [hkind] at hnumeral
      exact ⟨r.current.text, hnumeral, .inr hliteral⟩
  -- Every real number has a type, since what is left of it is read as one.
  obtain ⟨name, -, htype⟩ := realTypeBy?_of_numeral hword
  obtain ⟨hunsigned, hsigned⟩ := htype isDouble fun d => isDouble_of_decimal
  rw [String.ofList_toList] at hunsigned hsigned
  rcases hliteral with rfl | rfl
  · cases hunsigned.symm.trans hnone
  · cases hsigned.symm.trans hnone

/-- **The grammar of numbers.**  Wherever a digit stands in a text, the scan fails exactly where `0x` is
followed by no hexadecimal digit, or an exponent is begun without one, and then at the place of the missing
digit; otherwise it reads the longest number of the grammar that stands there, with its kind.  If it is a real
number, its type is the one that its suffix names, with a minus before it or not, whatever else may be read as
a number besides decimal ones; and no text is refused by typing for a real number. -/
theorem number_grammar {text : List Char} {position : Nat} {c : Char} {cs : List Char}
    (hposition : dropBytes? position text = some (c :: cs)) (hdigit : c.isDigit = true)
    (previous : Option TokenKind) :
    (∀ fault, tokenAt text position previous = .error fault ↔
      ∃ front rest, c :: cs = front ++ rest ∧ MissesDigit front rest ∧
        fault = ⟨.digitExpected, position + byteSize front⟩) ∧
    (∀ t, tokenAt text position previous = .ok t →
      (t.start = position ∧ Numeral t.kind t.text.toList ∧ t.text.toList <+: c :: cs ∧
        ∀ kind v, Numeral kind v → v <+: c :: cs →
          v <+: t.text.toList ∧ (v = t.text.toList → kind = t.kind)) ∧
      (t.kind = .realLiteral → ∃ name, NamesRealType t.text.toList name ∧
        ∀ accepts : List Char → Bool, (∀ d, Decimal d → accepts d = true) →
          ∀ minus, realTypeBy? accepts t.text = some name ∧
            realTypeBy? accepts (t.negated minus).text = some name)) ∧
    ∀ (s : Typing.Setting) (source literal : String) (place : Nat),
      s.compile source ≠ .error (.fault ⟨.invalidReal literal, place⟩) := by
  refine ⟨fun fault => tokenAt_eq_error_iff previous hposition hdigit, fun t ht => ?_, compile_ne_invalidReal⟩
  have hlongest := tokenAt_longest hposition hdigit ht
  refine ⟨hlongest, fun hkind => ?_⟩
  have hnumeral := hlongest.2.1
  rw [hkind] at hnumeral
  obtain ⟨name, hnames, htype⟩ := realTypeBy?_of_numeral hnumeral
  rw [String.ofList_toList] at htype
  exact ⟨name, hnames, fun accepts haccepts _ => htype accepts haccepts⟩

/-- A real number between a minus and a word. -/
theorem number_grammar_of_suffix :
    dropBytes? 1 "-1.5e3Dx".toList = some "1.5e3Dx".toList ∧
      ∃ t, tokenAt "-1.5e3Dx".toList 1 (some .minus) = .ok t ∧ t = ⟨.realLiteral, "1.5e3D", 1⟩ ∧
        (∀ kind v, Numeral kind v → v <+: "1.5e3Dx".toList → v <+: "1.5e3D".toList) ∧
        NamesRealType "1.5e3D".toList Known.double := by
  have hposition : dropBytes? 1 "-1.5e3Dx".toList = some ('1' :: ".5e3Dx".toList) := by decide +kernel
  have hscan : tokenAt "-1.5e3Dx".toList 1 (some .minus) = .ok ⟨.realLiteral, "1.5e3D", 1⟩ := by decide +kernel
  obtain ⟨-, hread, -⟩ := number_grammar hposition rfl (some .minus)
  obtain ⟨⟨-, -, -, hlongest⟩, hreal⟩ := hread _ hscan
  obtain ⟨name, hnames, htype⟩ := hreal rfl
  have hdouble : some name = some Known.double := by
    rw [← (htype isDouble (fun d => isDouble_of_decimal) ⟨.minus, "-", 0⟩).1]
    decide +kernel
  cases hdouble
  exact ⟨hposition, _, hscan, rfl, fun kind v hv hprefix => (hlongest kind v hv hprefix).1, hnames⟩

end TypeAhead
