/-
  TypeAhead.Proofs.Positions — FAULTS LIE IN THE TEXT.

  A walk and itself are twins, at places that are boundaries of characters of
  the text: where a token starts, and where the next one has a fault.  What twins
  fail for they fail for at corresponding places, so a failure has its position
  among them.  A second attempt works on another text and is not reported.

      mirror               a text as its own twin, on boundaries
      Lies                 an offset that a report can show as it is
      positions_in_text    every failure of a text lies in the text
-/
import TypeAhead.Proofs.Formatting
import TypeAhead.Proofs.Token.Coverage
import TypeAhead.Resolution
import TypeAhead.Text.Position

namespace TypeAhead

open Text

/-! ## §1. A text as its own twin. -/

/-- A boundary of characters of a text, the same in both walks. -/
def SameBorder (text : List Char) (a b : Nat) : Prop := a = b ∧ Scan.Borders text a

/-- `Mirrored text n c d`: the cursors are one, which reading the text leads to save for how its
current token is worded and where it starts, and at most `n` bytes of the text are from there on. -/
def Mirrored (text : List Char) (n : Nat) (c d : Cursor) : Prop :=
  d = c ∧ Scan.Borders text c.current.start ∧ ∃ past r, Reaches text past r ∧
    c.size = r.size ∧ c.offset = r.offset ∧ c.rest = r.rest ∧ c.current.kind = r.current.kind ∧
    n + r.current.start = byteSize text

namespace Reaches

variable {text : List Char} {past : List TokenKind} {c : Cursor}

/-- Tokens start on boundaries. -/
theorem borders (h : Reaches text past c) : Scan.Borders text c.current.start := by
  obtain ⟨read, rest, htext, hsize⟩ := h.boundary
  exact ⟨read, ⟨rest, htext.symm⟩, hsize⟩

theorem mirrored (h : Reaches text past c) :
    Mirrored text (byteSize text - c.current.start) c c := by
  have := h.start_le
  exact ⟨rfl, h.borders, past, c, h, rfl, rfl, rfl, rfl, by omega⟩

end Reaches

/-- **A text is walked as its own twin**, from boundary to boundary. -/
def mirror (text : List Char) : Twins where
  alike := Mirrored text
  place := SameBorder text
  kind_eq := by rintro n c _ ⟨rfl, -⟩; rfl
  text_eq := by rintro n c _ ⟨rfl, -⟩; rfl
  start_eq := by rintro n c _ ⟨rfl, hborders, -⟩; exact ⟨rfl, hborders⟩
  le_size := by
    rintro n c _ ⟨rfl, -, past, r, hr, hsize, -, -, -, hn⟩
    rw [hsize, hr.split.1]
    omega
  next := by
    rintro n c _ ⟨rfl, -, past, r, hr, hsize, hoffset, hrest, hkind, hn⟩ hc
    have hrc : r.current.isFinish = false := by rwa [Token.isFinish, ← hkind]
    rw [Cursor.next_congr hsize hoffset hrest hkind hrc]
    cases hnext : r.next with
    | ok e =>
      have hlt := hr.start_lt (hr.next hrc hnext) (by simp)
      have hle := (hr.next hrc hnext).start_le
      exact .ok ⟨byteSize text - e.current.start, by omega, (hr.next hrc hnext).mirrored⟩
    | error fault => exact .error rfl ⟨rfl, hr.borders_of_next hrc hnext⟩
  replace := by
    rintro n c _ s t ⟨rfl, -, past, r, hr, hsize, hoffset, hrest, hkind, hn⟩ hs ht htext hplace
    obtain ⟨hstart, hborders⟩ := hplace
    have hst : t = s := by
      cases s
      cases t
      simp_all
    exact ⟨by rw [hst], hborders, past, r, hr, hsize, hoffset, hrest, hs.trans hkind, hn⟩

/-- The walk starts at the first token, or has its fault on a boundary. -/
theorem agree_mirror (text : List Char) :
    Agree (mirror text).place (fun c d => ∃ n, (mirror text).alike n c d) (Cursor.open? text)
      (Cursor.open? text) := by
  cases hopen : Cursor.open? text with
  | ok c => exact .ok ⟨_, (Reaches.first hopen).mirrored⟩
  | error fault => exact .error rfl ⟨rfl, borders_of_open_error hopen⟩

/-! ## §2. Offsets that can be shown. -/

/-- An offset lies in a text: no later than its end, on a boundary of characters, and so that the
place shown for it is its own. -/
structure Lies (text : String) (position : Nat) : Prop where
  le_size : position ≤ text.utf8ByteSize
  boundary : (takeBytes? position text.toList).isSome = true
  point : (Span.point text.toList position).start.offset = position ∧
    (Span.point text.toList position).stop.offset = position

/-- A failure has a position, which lies in the text. -/
def Failure.LiesIn (failure : Failure) (text : String) : Prop :=
  ∃ position, failure.position? = some position ∧ Lies text position

variable {text : String}

theorem lies_of_borders {position : Nat} (h : Scan.Borders text.toList position) :
    Lies text position := by
  obtain ⟨front, ⟨rest, hrest⟩, rfl⟩ := h
  have hle : byteSize front ≤ byteSize text.toList := by
    rw [← hrest, byteSize_append]
    omega
  have hpoint : (Position.locate text.toList (byteSize front)).offset = byteSize front := by
    show min (byteSize front) (byteSize text.toList) = byteSize front
    exact Nat.min_eq_left hle
  refine ⟨byteSize_toList text ▸ hle, ?_, hpoint, hpoint⟩
  rw [← hrest, takeBytes?_append]
  rfl

/-- What the twins of the mirror fail for has its position in the text. -/
theorem liesIn_of_sameFailure {failure : Failure}
    (h : SameFailure (SameBorder text.toList) failure failure) : failure.LiesIn text := by
  cases failure with
  | fault f => exact ⟨f.position, rfl, lies_of_borders h.2.2⟩
  | propagation position => exact ⟨position, rfl, lies_of_borders h.2⟩
  | invalidCaret => exact h.elim
  | sourceTooLarge => exact h.elim

/-! ## §3. What reads a text. -/

/-- What stops the walk of the locator has its position in the text. -/
def Fragment.StopsIn (text : String) (r : Fragment) : Prop :=
  ∀ fault ∈ r.stoppedBy, Lies text fault.position

theorem concur_locate_mirror (parsing : Parsing) (text : String) :
    Concur (SameBorder text.toList) (fun r _ => r.StopsIn text) (Fragment.locate parsing text)
      (Fragment.locate parsing text) := by
  refine Fragment.concur_locate parsing (agree_mirror text.toList) fun {stoppedBy _} _ hstop => ?_
  intro fault hfault
  obtain rfl : stoppedBy = some fault := by simpa [Fragment.ofOpen] using hfault
  cases hstop with
  | some h => exact lies_of_borders h.2.2

theorem liesIn_of_compile (s : Typing.Setting) {failure : Failure} (h : s.compile text = .error failure) :
    failure.LiesIn text := by
  have hmirror := concur_compile s (agree_mirror text.toList)
  rw [h] at hmirror
  cases hmirror with
  | error h => exact liesIn_of_sameFailure h

/-- What fails in spite of a second attempt fails as the text itself does. -/
theorem compile_of_compileRetrying {s : Typing.Setting} {retry : Bool} {failure : Failure}
    (h : s.compileRetrying retry text = .error failure) : s.compile text = .error failure := by
  unfold Typing.Setting.compileRetrying at h
  split at h
  · cases h
  · rename_i first hcompile
    rw [hcompile]
    split at h
    · split at h
      · cases h
      · exact h
    · exact h

theorem compile_of_resolve {s : Typing.Setting} {failure : Failure}
    (h : s.resolve text = .error failure) : s.compile text = .error failure := by
  unfold Typing.Setting.resolve at h
  split at h
  · cases h
  · split at h
    · cases h
    · rename_i first hretry
      split at h
      · cases h
      · cases h
        exact compile_of_compileRetrying hretry

/-! ## §4. Every failure of a text. -/

/-- **Every failure lies in the text.**  Whatever a text is read for, as tokens, for its fragment or as
an expression, with or without a second attempt, or to resolve it, a fault or a refusal has a position
no later than the end of that same text, on a boundary of its characters, which is shown as it is. -/
theorem positions_in_text (s : Typing.Setting) (parsing : Parsing) (retry : Bool) (text : String) :
    (∀ fault, tokenize text = .error fault → Lies text fault.position) ∧
    (∀ r, Fragment.locate parsing text = .ok r → r.StopsIn text) ∧
    (∀ failure, Fragment.locate parsing text = .error failure → failure.LiesIn text) ∧
    (∀ failure, s.compile text = .error failure → failure.LiesIn text) ∧
    (∀ failure, s.compileRetrying retry text = .error failure → failure.LiesIn text) ∧
    (∀ failure, s.resolve text = .error failure → failure.LiesIn text) := by
  have hlocate := concur_locate_mirror parsing text
  refine ⟨fun fault h => lies_of_borders (borders_of_tokenize_error h), fun r h => ?_,
    fun failure h => ?_, fun failure h => liesIn_of_compile s h,
    fun failure h => liesIn_of_compile s (compile_of_compileRetrying h),
    fun failure h => liesIn_of_compile s (compile_of_resolve h)⟩
  · rw [h] at hlocate
    cases hlocate with
    | ok h => exact h
  · rw [h] at hlocate
    cases hlocate with
    | error h => exact liesIn_of_sameFailure h

/-- A literal that is left open is reported at the end of the text, which counts bytes. -/
theorem positions_in_text_of_open :
    let s : Typing.Setting := ⟨.empty, {}, Predefined.objectType⟩
    tokenize "\"é\" + \"" = .error ⟨.unterminatedString, 8⟩ ∧ Lies "\"é\" + \"" 8 ∧
      Fragment.locate {} "\"é\" + \"" = .ok ⟨0, "\"é\" + \"", some ⟨.unterminatedString, 8⟩⟩ ∧
      s.compile "\"é\" + \"" = .error (.fault ⟨.unterminatedString, 8⟩) ∧
      (Failure.fault ⟨.unterminatedString, 8⟩).LiesIn "\"é\" + \"" := by
  intro s
  have htokenize : tokenize "\"é\" + \"" = .error ⟨.unterminatedString, 8⟩ := by decide +kernel
  have hcompile : s.compile "\"é\" + \"" = .error (.fault ⟨.unterminatedString, 8⟩) := by decide +kernel
  obtain ⟨htokens, -, -, htyped, -⟩ := positions_in_text s {} true "\"é\" + \""
  exact ⟨htokenize, htokens _ htokenize, by decide +kernel, hcompile, htyped _ hcompile⟩

end TypeAhead
