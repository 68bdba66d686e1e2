/-
  TypeAhead.Proofs.Token.Faults — WHAT READING CAN FAIL FOR.

  Most causes need no more than that a walk comes to them.  Some say something about
  the text that has to be true of it: that a type is not found which it names, that
  a literal is not between two quotes, that a number is of no type.  The scanner itself
  fails for none of these, and null propagation is refused only where it stands.

      isPlain_of_lexeme    a lexeme fails for a plain cause
      isPlain_of_next      so does going on in a text
-/
import TypeAhead.Proofs.Token.Reading

namespace TypeAhead

/-! ## §1. Causes. -/

namespace Cause

/-- The quotes around a literal are wrong. -/
def isQuoting : Cause → Bool
  | literalTooShort | literalWithoutQuote | literalNotClosed => true
  | _ => false

/-- A cause that says nothing about the names of types, the quotes of literals and the values of
numbers. -/
def isPlain : Cause → Bool
  | typeNotFound _ | invalidInteger _ | invalidReal _ => false
  | cause => !cause.isQuoting

end Cause

/-- A null propagation of the text stands at the offset. -/
def Propagates (text : List Char) (position : Nat) : Prop :=
  ∃ past c, Reaches text past c ∧ c.current.kind = .propagate ∧ c.current.start = position

/-! ## §2. The scanner. -/

namespace Scan

variable {previous : Option TokenKind} {start : Nat} {c : Char} {cs : List Char} {fault : Fault}

theorem isPlain_of_number (h : number start cs = .error fault) : fault.cause.isPlain = true := by
  unfold number realPart at h
  dsimp only at h
  repeat' split at h
  all_goals cases h
  all_goals first | rfl | skip
  rename_i hpart
  split at hpart <;> cases hpart
  rfl

theorem isPlain_of_lexeme (h : Scan.lexeme previous start c cs = .error fault) :
    fault.cause.isPlain = true := by
  cases lexeme_eq_iff.1 h with
  | symbol _ _ hread => cases hread
  | literal _ _ hread =>
    unfold quoted at hread
    dsimp only at hread
    repeat' split at hread
    all_goals cases hread
    all_goals rfl
  | word _ _ _ hread =>
    unfold word at hread
    dsimp only at hread
    split at hread <;> cases hread
    rfl
  | number _ _ _ _ hread => exact isPlain_of_number hread
  | other _ _ _ _ hread =>
    cases hread
    rfl

end Scan

/-! ## §3. Cursors. -/

namespace Cursor

variable {c : Cursor} {fault : Fault}

theorem isPlain_of_read {size offset : Nat} {previous : Option TokenKind} {rest : List Char}
    (h : read size previous offset rest = .error fault) : fault.cause.isPlain = true := by
  unfold read at h
  split at h
  · rename_i htoken
    cases h
    obtain ⟨c, tail, -, hlexeme⟩ := Scan.lexeme_of_token_error htoken
    exact Scan.isPlain_of_lexeme hlexeme
  · cases h

theorem isPlain_of_next (h : c.next = .error fault) : fault.cause.isPlain = true := by
  unfold next at h
  split at h
  · cases h
  · exact isPlain_of_read h

theorem isPlain_of_peek (h : c.peek = .error fault) : fault.cause.isPlain = true := by
  unfold peek at h
  cases hnext : c.next with
  | ok d =>
    rw [hnext] at h
    cases h
  | error other =>
    rw [hnext] at h
    cases h
    exact isPlain_of_next hnext

end Cursor

end TypeAhead
