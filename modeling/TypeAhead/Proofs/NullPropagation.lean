/-
  TypeAhead.Proofs.NullPropagation — NO REFUSAL INSIDE A VALID EXPRESSION.

  Null propagation is refused, and no rule of typing goes past it.  So a text that
  has a type has none, and neither has what is analysed at a caret: the part before
  the caret has no token that the text has not, save at its end, where none can be
  cut into null propagation; and the fragment is read as it is in that part.

      reaches_of_fragment         what is in a fragment is in its text
      not_propagates_of_compile   a text that has a type has none
      caret_in_typed              every caret of such a text
-/
import TypeAhead.Completion
import TypeAhead.Proofs.Fragment.Idempotence
import TypeAhead.Proofs.Positions
import TypeAhead.Proofs.Token.Growth
import TypeAhead.Proofs.Typing.Brackets
import TypeAhead.Proofs.Typing.Confinement
import TypeAhead.Proofs.WordAtCaret

namespace TypeAhead

open Text

/-! ## §1. Fragments. -/

namespace Fragment

variable {parsing : Parsing} {text : String} {r : Fragment} {held : List Nat} {position : Nat}

/-- An operand is opened where a token starts that no dot stands before. -/
theorem Begins.reached {text : List Char} {c : Cursor} (h : Begins text c) :
    ∃ past d, Reaches text past d ∧ past.head? ≠ some .dot ∧ d.current.start = c.current.start := by
  cases h with
  | plain h hpast => exact ⟨_, c, h, hpast, rfl⟩
  | @negated past m c h hpast => exact ⟨past, m, h, hpast, rfl⟩

theorem OpenedBy.begins {text : List Char} {o : Located} (h : OpenedBy parsing text held o) :
    ∃ c, Begins text c ∧ held.head? = some c.current.start := by
  obtain ⟨-, u, hbegins, rfl, -⟩ := h
  exact ⟨_, hbegins, rfl⟩

/-- What is open at the end of a walk, if anything is, was opened where an operand may start. -/
theorem begins_of_walk (parsing : Parsing) {text : List Char} {c : Cursor}
    (hopen : Cursor.open? text = .ok c) :
    (walk parsing c).walk.held = [] ∨
      ∃ d, Begins text d ∧ (walk parsing c).walk.held.head? = some d.current.start := by
  have horigin := origin_of_walk parsing hopen
  cases hwalk : walk parsing c with
  | ok _ w =>
    rw [hwalk] at horigin
    exact horigin.imp id fun ⟨_, hopened, _, _⟩ => hopened.begins
  | error failure w =>
    rw [hwalk] at horigin
    rcases horigin with horigin | ⟨_, hopened, _⟩
    · exact horigin.imp id fun ⟨_, hopened, _, _⟩ => hopened.begins
    · exact .inr hopened.begins

/-- A fragment is the text, or starts where an operand may. -/
theorem begins_of_locate (h : locate parsing text = .ok r) :
    r.text = text ∨ ∃ c, Begins text.toList c ∧ r.start = c.current.start := by
  obtain ⟨starts, stoppedBy, rfl, rfl | ⟨c, hopen, rfl⟩⟩ := eq_ofOpen_of_locate h
  · exact .inl (text_of_nil text stoppedBy)
  · rcases begins_of_walk parsing hopen with hnil | ⟨d, hbegins, hhead⟩
    · rw [hnil]
      exact .inl (text_of_nil text stoppedBy)
    · obtain ⟨starts, hheld⟩ := List.head?_eq_some_iff.1 hhead
      rw [hheld]
      exact .inr ⟨d, hbegins, rfl⟩

/-- **What is reached in a fragment is reached in its text.**  The fragment is read there as it is by
itself. -/
theorem reaches_of_fragment {past : List TokenKind} {c : Cursor} (h : locate parsing text = .ok r)
    (hr : Reaches r.text.toList past c) :
    ∃ past' d, Reaches text.toList past' d ∧ d.current.kind = c.current.kind := by
  rcases begins_of_locate h with htext | ⟨b, hbegins, hstart⟩
  · exact ⟨past, c, htext ▸ hr, rfl⟩
  · obtain ⟨before, d, hreached, hpast, hd⟩ := hbegins.reached
    obtain ⟨front, rest, first, htext, hfront, hopen, -, halike⟩ := open_at hreached hpast
    -- Both say where the text is cut, so the fragment is what `open_at` starts from.
    have hrest : r.text.toList = rest := by
      have hdrop := (answers_of_locate h).rest
      rw [hstart, ← hd, ← hfront, htext, dropBytes?_append] at hdrop
      exact (Option.some.inj hdrop).symm
    rw [hrest] at hr
    obtain ⟨e, he, halike' | ⟨hne, -⟩⟩ := reaches_within follows_nil hopen hreached halike hr
    · exact ⟨_, e, he, halike'.kind_eq⟩
    · exact absurd rfl hne

/-- **Null propagation in a fragment is in its text.** -/
theorem propagates_of_fragment (h : locate parsing text = .ok r) (hr : Propagates r.text.toList position) :
    ∃ position', Propagates text.toList position' := by
  obtain ⟨past, c, hreached, hkind, -⟩ := hr
  obtain ⟨past', d, hreached', hkind'⟩ := reaches_of_fragment h hreached
  exact ⟨_, past', d, hreached', hkind'.trans hkind, rfl⟩

end Fragment

/-! ## §2. Texts that have a type. -/

variable {s : Typing.Setting} {text : String} {t : TypeDef} {failure : Failure} {caret : Nat}
  {before : List Char}

/-- **A text that has a type has no null propagation.** -/
theorem not_propagates_of_compile (h : s.compile text = .ok t) (position : Nat) :
    ¬ Propagates text.toList position := by
  rintro ⟨past, c, hreached, hkind, -⟩
  obtain ⟨tokens, htokens, hpassable⟩ := Typing.passable_of_compile h
  have hmem := List.mem_map_of_mem (f := Token.mark) (mem_of_reaches htokens hreached)
  exact hpassable.ne_propagate _ hmem hkind

/-- Without null propagation typing fails for faults only. -/
theorem isFault_of_compile_error (h : s.compile text = .error failure)
    (hnone : ∀ position, ¬ Propagates text.toList position) : failure.isFault = true := by
  have hexcused := Typing.compile_cases s text
  rw [h] at hexcused
  cases failure with
  | fault fault => rfl
  | propagation position => exact absurd hexcused (hnone position)
  | invalidCaret => exact hexcused.elim
  | sourceTooLarge => exact hexcused.elim

/-! ## §3. Carets. -/

theorem withoutDot_isPrefix (cs : List Char) : Analysis.withoutDot cs <+: cs := by
  unfold Analysis.withoutDot
  split
  · exact List.dropLast_prefix cs
  · exact List.prefix_refl cs

/-- **How an analysis fails**: the text cannot be cut at the caret, or what is before it has no fragment,
or its fragment stands for nothing. -/
theorem analyze_error_cases (h : s.analyze text caret = .error failure) :
    Analysis.truncate text caret = .error failure ∨ ∃ cut, Analysis.truncate text caret = .ok cut ∧
      (Fragment.locate s.parsing cut = .error failure ∨
        ∃ r, Fragment.locate s.parsing cut = .ok r ∧ s.resolve r.text = .error failure) := by
  unfold Typing.Setting.analyze at h
  -- An analysis cuts the text, locates the fragment and resolves it; each step may fail.
  cases htruncate : Analysis.truncate text caret with
  | error failure' =>
    rw [htruncate] at h
    cases h
    exact .inl rfl
  | ok cut =>
    rw [htruncate] at h
    refine .inr ⟨cut, rfl, ?_⟩
    cases hlocate : Fragment.locate s.parsing cut with
    | error failure' =>
      simp only [bind, Except.bind, hlocate] at h
      cases h
      exact .inl rfl
    | ok r =>
      simp only [bind, Except.bind, hlocate] at h
      refine .inr ⟨r, rfl, ?_⟩
      cases hresolve : s.resolve r.text with
      | error failure' =>
        rw [hresolve] at h
        cases h
        rfl
      | ok resolution =>
        rw [hresolve] at h
        cases h

theorem truncate_of_takeBytes? (hsize : text.utf8ByteSize ≤ Limits.sourceBytes)
    (hcaret : takeBytes? caret text.toList = some before) :
    Analysis.truncate text caret = .ok (String.ofList (Analysis.withoutDot before)) := by
  unfold Analysis.truncate
  rw [if_neg (Nat.not_lt.2 hsize), hcaret]

/-- A caret that is no boundary of characters of the text is not analysed. -/
theorem analyze_of_invalidCaret (hsize : text.utf8ByteSize ≤ Limits.sourceBytes)
    (hcaret : takeBytes? caret text.toList = none) :
    s.analyze text caret = .error (.invalidCaret caret text.utf8ByteSize) := by
  have htruncate : Analysis.truncate text caret = .error (.invalidCaret caret text.utf8ByteSize) := by
    unfold Analysis.truncate
    rw [if_neg (Nat.not_lt.2 hsize), hcaret]
  unfold Typing.Setting.analyze
  rw [htruncate]
  rfl

/-- **Without null propagation in the text, an analysis fails for faults only.**  What is before the
caret has none either, nor has its fragment. -/
theorem isFault_of_analyze_error (hnone : ∀ position, ¬ Propagates text.toList position)
    (hsize : text.utf8ByteSize ≤ Limits.sourceBytes) (hcaret : takeBytes? caret text.toList = some before)
    (h : s.analyze text caret = .error failure) : failure.isFault = true := by
  obtain ⟨more, htext, -⟩ := takeBytes?_eq_some hcaret
  obtain ⟨rest, hrest⟩ := withoutDot_isPrefix before
  -- What is before the caret goes on to the text, with the dot and with what is after the caret.
  have hcut : ∀ position, ¬ Propagates (Analysis.withoutDot before) position := by
    intro position hpropagates
    have hgrown := propagates_append (propagates_append hpropagates rest) more
    rw [hrest, ← htext] at hgrown
    exact hnone position hgrown
  have htruncate := truncate_of_takeBytes? hsize hcaret
  -- The cut succeeds, the fragment is one of a text without null propagation, and so is what is
  -- resolved.
  rcases analyze_error_cases h with herror | ⟨cut, hok, hlocate | ⟨r, hlocate, hresolve⟩⟩
  · cases htruncate.symm.trans herror
  · cases htruncate.symm.trans hok
    obtain ⟨past, c, hreached, hkind, -⟩ := Fragment.propagation_of_locate_error hlocate
    rw [String.toList_ofList] at hreached
    exact absurd ⟨past, c, hreached, hkind, rfl⟩ (hcut c.current.start)
  · cases htruncate.symm.trans hok
    refine isFault_of_compile_error (compile_of_resolve hresolve) fun position hpropagates => ?_
    obtain ⟨position', hposition'⟩ := Fragment.propagates_of_fragment hlocate hpropagates
    rw [String.toList_ofList] at hposition'
    exact hcut position' hposition'

/-! ## §4. How completions fail. -/

/-- **How a completion fails**: at a caret that is none, or as the analysis before the word does if that
is for no fault. -/
theorem complete_error_cases {listing : Listing} (h : s.complete listing text caret = .error failure) :
    (Completion.wordStart? text caret = none ∧ failure = .invalidCaret caret text.utf8ByteSize) ∨
      ∃ start, Completion.wordStart? text caret = some start ∧ failure.isFault = false ∧
        s.analyze text (Completion.beforeWord text start) = .error failure := by
  unfold Typing.Setting.complete at h
  split at h
  · rename_i hword
    cases h
    exact .inl ⟨hword, rfl⟩
  · rename_i start hword
    split at h
    · rename_i failure' hanalyze
      split at h
      · cases h
      · rename_i hfault
        cases h
        exact .inr ⟨start, hword, by simpa using hfault, hanalyze⟩
    · cases h

/-! ## §5. Every caret of a text that has a type. -/

/-- **Nothing is refused inside a valid expression.**  In a text that has a type and is no larger than
allowed, every offset between two characters may be the caret: an analysis fails for faults only, and a
completion does not fail.  Any other offset is reported as a wrong caret, and as nothing else. -/
theorem caret_in_typed (h : s.compile text = .ok t) (hsize : text.utf8ByteSize ≤ Limits.sourceBytes)
    (listing : Listing) (caret : Nat) :
    match takeBytes? caret text.toList with
    | some _ => (∀ failure, s.analyze text caret = .error failure → failure.isFault = true) ∧
        ∀ failure, s.complete listing text caret ≠ .error failure
    | none => s.analyze text caret = .error (.invalidCaret caret text.utf8ByteSize) ∧
        s.complete listing text caret = .error (.invalidCaret caret text.utf8ByteSize) := by
  have hnone := not_propagates_of_compile h
  -- A caret is between two characters, or it is no place in the text.
  cases hcaret : takeBytes? caret text.toList with
  | some before =>
    refine ⟨fun failure => isFault_of_analyze_error hnone hsize hcaret, fun failure hcomplete => ?_⟩
    obtain ⟨start, front, hword, hfront⟩ := wordStart?_eq_some hcaret
    -- The analysis before the word may have a fault, and then nothing is offered.
    rcases complete_error_cases hcomplete with ⟨hnoword, -⟩ | ⟨start', hword', hfault, hanalyze⟩
    · cases hword.symm.trans hnoword
    · cases hword.symm.trans hword'
      have := isFault_of_analyze_error hnone hsize (takeBytes?_beforeWord hfront) hanalyze
      cases this.symm.trans hfault
  | none =>
    refine ⟨analyze_of_invalidCaret hsize hcaret, ?_⟩
    unfold Typing.Setting.complete Completion.wordStart?
    rw [hcaret]
    rfl

/-- A caret in a literal, after what would be null propagation outside of it. -/
theorem caret_in_typed_of_literal :
    let s : Typing.Setting := ⟨.empty, {}, Predefined.objectType⟩
    s.compile "\"?.\" == \"a\"" = .ok Predefined.booleanType ∧
      takeBytes? 3 "\"?.\" == \"a\"".toList = some "\"?.".toList ∧
      (∀ failure, s.analyze "\"?.\" == \"a\"" 3 = .error failure → failure.isFault = true) ∧
      ∀ failure, s.complete {} "\"?.\" == \"a\"" 3 ≠ .error failure := by
  intro s
  have hcompile : s.compile "\"?.\" == \"a\"" = .ok Predefined.booleanType := by decide +kernel
  have hcaret : takeBytes? 3 "\"?.\" == \"a\"".toList = some "\"?.".toList := by decide +kernel
  have h := caret_in_typed hcompile (by decide) {} 3
  rw [hcaret] at h
  exact ⟨hcompile, hcaret, h⟩

end TypeAhead
