/-
  TypeAhead.Proofs.UnclosedLiterals — WHEN A LITERAL IS NOT CLOSED.

  The scanner and the decoder agree on every literal by itself.  Where literals in a
  row are put together they need not: the decoder sees the first quote of the first
  literal and the last quote of the last one.  So there is one way to a literal that
  is not closed, a row that starts in double quotes and ends in single quotes.  The
  locator reports it where the row is over, typing where it starts.

      value_iff_of_row     which rows are closed
      quoting_faults       where the quotes of a text are found wrong
-/
import TypeAhead.Proofs.Fragment.Answer
import TypeAhead.Proofs.Typing.Confinement

namespace TypeAhead

variable {text : List Char} {past : List TokenKind} {c last d : Cursor} {joined : String}

/-- **A row is not closed if and only if its first and its last literal are quoted otherwise.** -/
theorem value_iff_of_row (h : Reaches text past c) (hrow : Row c joined last d) (dialect : Dialect)
    (position : Nat) :
    (∃ fault, Literal.value dialect position joined = .error fault ∧ fault.cause.isQuoting = true) ↔
      last.current.text.toList.head? ≠ c.current.text.toList.head? := by
  obtain ⟨⟨first, mark, hfirst, hlast, hjoined⟩, -⟩ := hrow.quoted h
  rw [hfirst.head?, hlast.head?]
  constructor
  · rintro ⟨fault, hvalue, hquoting⟩ heads
    obtain rfl := Option.some.inj heads
    obtain ⟨reason, hcause⟩ := Literal.value_of_matched hjoined hvalue
    rw [hcause] at hquoting
    cases hquoting
  · intro hne
    exact ⟨_, Literal.value_of_mixed hjoined fun heq => hne (congrArg some heq), rfl⟩

namespace Fragment

/-- A quoting fault that has an excuse is that of a row that is not closed. -/
theorem mixedRow_of_excused {fault : Fault} (h : Excused text (.fault fault))
    (hquoting : fault.cause.isQuoting = true) :
    fault.cause = .literalNotClosed ∧ ∃ c d, MixedRow text c d ∧ d.current.start = fault.position := by
  obtain ⟨cause, position⟩ := fault
  cases cause with
  | literalNotClosed => exact ⟨rfl, h⟩
  | literalTooShort | literalWithoutQuote => exact (Bool.false_ne_true h).elim
  | _ => exact (Bool.false_ne_true hquoting).elim

end Fragment

namespace Typing

theorem mixedRow_of_excused {s : Setting} {fault : Fault} (h : s.Excused text (.fault fault))
    (hquoting : fault.cause.isQuoting = true) :
    fault.cause = .literalNotClosed ∧ ∃ c d, MixedRow text c d ∧ c.current.start = fault.position := by
  obtain ⟨cause, position⟩ := fault
  cases cause with
  | literalNotClosed => exact ⟨rfl, h⟩
  | literalTooShort | literalWithoutQuote => exact (Bool.false_ne_true h).elim
  | _ => exact (Bool.false_ne_true hquoting).elim

end Typing

/-- **Where the quotes of a text are found wrong.**  No literal is too short or without its quote, and
each by itself is between two quotes of one kind.  What stops the locator, and why a text has no type,
may be that a literal is not closed; then the text has a row of literals of which the first is in
double and the last in single quotes.  The locator reports it at the token after the row, typing at
the first literal.  A row is closed if and only if its first and its last literal are quoted alike. -/
theorem quoting_faults (s : Typing.Setting) (parsing : Parsing) (text : String) :
    (∀ past c, Reaches text.toList past c → c.current.kind = .stringLiteral →
      ∃ mark, Quoted mark mark c.current.text) ∧
    (∀ r fault, Fragment.locate parsing text = .ok r → r.stoppedBy = some fault →
      fault.cause.isQuoting = true → fault.cause = .literalNotClosed ∧
        ∃ c d, MixedRow text.toList c d ∧ d.current.start = fault.position) ∧
    (∀ fault, s.compile text = .error (.fault fault) → fault.cause.isQuoting = true →
      fault.cause = .literalNotClosed ∧
        ∃ c d, MixedRow text.toList c d ∧ c.current.start = fault.position) ∧
    ∀ past c joined last d, Reaches text.toList past c → Row c joined last d →
      ∀ dialect position, ((∃ fault, Literal.value dialect position joined = .error fault ∧
          fault.cause.isQuoting = true) ↔
        last.current.text.toList.head? ≠ c.current.text.toList.head?) := by
  refine ⟨fun past c h hkind => h.quoted hkind, ?_, ?_, fun _ _ _ _ _ h hrow => value_iff_of_row h hrow⟩
  · intro r fault hlocate hstopped hquoting
    -- The walk stops at a fault it raises, and a fault about quotes is raised at a mixed row alone.
    have hstops := ((Fragment.answers_of_locate hlocate).stopped fault).1 hstopped
    exact Fragment.mixedRow_of_excused (Fragment.excused_of_stops hstops) hquoting
  · intro fault hcompile hquoting
    have hcases := Typing.compile_cases s text
    rw [hcompile] at hcases
    exact Typing.mixedRow_of_excused hcases hquoting

/-- Two literals, in double and in single quotes, which the scanner accepts. -/
theorem quoting_faults_of_two :
    tokenize "\"a\" 'b'" =
        .ok [⟨.stringLiteral, "\"a\"", 0⟩, ⟨.stringLiteral, "'b'", 4⟩, .finish 7] ∧
      Fragment.locate {} "\"a\" 'b'" = .ok ⟨0, "\"a\" 'b'", some ⟨.literalNotClosed, 7⟩⟩ ∧
      (∃ c d, MixedRow "\"a\" 'b'".toList c d ∧ d.current.start = 7) ∧
      (⟨.empty, {}, Predefined.objectType⟩ : Typing.Setting).compile "\"a\" 'b'" =
        .error (.fault ⟨.literalNotClosed, 0⟩) ∧
      ∃ c d, MixedRow "\"a\" 'b'".toList c d ∧ c.current.start = 0 := by
  have hlocate : Fragment.locate {} "\"a\" 'b'" =
      .ok ⟨0, "\"a\" 'b'", some ⟨.literalNotClosed, 7⟩⟩ := by decide +kernel
  have hcompile : (⟨.empty, {}, Predefined.objectType⟩ : Typing.Setting).compile "\"a\" 'b'" =
      .error (.fault ⟨.literalNotClosed, 0⟩) := by decide +kernel
  obtain ⟨-, hlocated, htyped, -⟩ :=
    quoting_faults ⟨.empty, {}, Predefined.objectType⟩ {} "\"a\" 'b'"
  have hrow := hlocated ⟨0, "\"a\" 'b'", some ⟨.literalNotClosed, 7⟩⟩ ⟨.literalNotClosed, 7⟩ hlocate rfl rfl
  exact ⟨by decide +kernel, hlocate, hrow.2, hcompile, (htyped ⟨.literalNotClosed, 0⟩ hcompile rfl).2⟩

end TypeAhead
