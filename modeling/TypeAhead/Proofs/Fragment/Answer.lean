/-
  TypeAhead.Proofs.Fragment.Answer — WHAT THE LOCATOR ANSWERS FOR ANY TEXT.

  The answer is the top of the stack when the walk is over.  So it is as good as
  the stack: the rules leave each other's operands alone, the stack is in order at
  every moment, and what is on it are starts of tokens.

      stack_discipline    the stack during a walk
      locate_sound        the answer for a text
-/
import TypeAhead.Proofs.Fragment.Discipline
import TypeAhead.Proofs.Fragment.Soundness

namespace TypeAhead.Fragment

/-! ## §1. The stack during a walk. -/

/-- Nothing is open at the first token, and any operand may open there. -/
theorem fresh_start {text : List Char} {w : Walk (List Nat)}
    (hopen : Cursor.open? text = .ok w.cursor) (hheld : w.held = [])
    (hdepth : w.depth ≤ Limits.nesting) : Fresh text 0 w := by
  have hfirst : Reaches text [] w.cursor := .first hopen
  have hnone : ∀ {P : Nat → Prop}, ∀ start ∈ w.held, P start := by
    intro P start hmem
    rw [hheld] at hmem
    exact absurd hmem nofun
  exact ⟨⟨⟨[], .of_reaches hfirst⟩, fun _ => ⟨[], hfirst⟩, hnone, hheld ▸ .nil, hnone, hdepth, Nat.zero_le _, hnone⟩, hnone, [],
    hfirst, openable_nil⟩

/-- What the rule for whole texts promises where a text starts. -/
theorem sound_reader (parsing : Parsing) {text : List Char} {c : Cursor}
    (h : Cursor.open? text = .ok c) :
    (reader parsing c.size).Ensures ⟨c, 0, []⟩ (Sound text 0)
      (fun _ v => Clear text 0 Leaves v) (Fails text 0) :=
  Rule.sound_run parsing _ .conditional _ (fresh_start h rfl (Nat.zero_le _))

/-- **The discipline of the stack.**  However a rule ends, what was open before it is open after it
and the depth is the same; if it succeeds where the text is not over, nothing else is open.  At every
moment of the walk of a text the stack rises, its top is not past the current token and the depth is
within its limit.  The top of the stack comes first. -/
theorem stack_discipline (parsing : Parsing) :
    (∀ budget rule w,
      w.held <:+ ((Rule.run parsing budget rule).run w).walk.held ∧
      ((Rule.run parsing budget rule).run w).walk.depth = w.depth ∧
      ∀ v, (Rule.run parsing budget rule).run w = .ok () v → v.cursor.current.isFinish = false →
        v.held = w.held) ∧
    ∀ text c v, Cursor.open? text = .ok c → (reader parsing c.size).passes ⟨c, 0, []⟩ v →
      v.held.Pairwise (· > ·) ∧ (∀ start ∈ v.held, start ≤ v.cursor.current.start) ∧
        v.depth ≤ Limits.nesting := by
  constructor
  · intro budget rule w
    have hrun := Rule.restores_run parsing budget rule w
    -- Success and failure keep what was open below, each in its own relation.
    have habove : Above w ((Rule.run parsing budget rule).run w).walk := by
      have hout := hrun.outcome
      cases h : (Rule.run parsing budget rule).run w with
      | ok a v => exact (hrun.ok h).toAbove
      | error failure v => exact hrun.error h
    exact ⟨habove.open_below, habove.depth, fun v hv => (hrun.ok hv).closed⟩
  -- The invariant holds along the whole walk, not only at its end.
  · intro text c v hopen hv
    have hsound := (sound_reader parsing hopen).along v hv
    exact ⟨hsound.ordered, hsound.below, hsound.depth⟩

/-- After the opening parenthesis of a call, the call and its argument are open. -/
theorem stack_discipline_of_call :
    ∃ c, Cursor.open? "f(a".toList = .ok c ∧
      (reader {} c.size).passes ⟨c, 0, []⟩ (walk {} c).walk ∧ (walk {} c).walk.held = [2, 0] ∧
      (walk {} c).walk.held.Pairwise (· > ·) := by
  have hopen : Cursor.open? "f(a".toList = .ok ⟨3, 1, ['(', 'a'], ⟨.identifier, "f", 0⟩⟩ := rfl
  have hpasses := Walker.passes_nested (do
      Rule.run {} (Rule.budget 3 - 1) .coalescing
      Rule.choice (Rule.run {} (Rule.budget 3 - 1)) : Locator Unit)
    ⟨⟨3, 1, ['(', 'a'], ⟨.identifier, "f", 0⟩⟩, 0, []⟩
  exact ⟨_, hopen, hpasses, rfl, ((stack_discipline {}).2 _ _ _ hopen hpasses).1⟩

/-! ## §2. The answer. -/

section

variable {parsing : Parsing} {text : String} {c : Cursor} {fault : Fault} {w : Walk (List Nat)}
  {r : Fragment} {failure : Failure}

/-- A fault of the first token leaves nothing open. -/
theorem locate_of_unopened (h : Cursor.open? text.toList = .error fault) :
    locate parsing text = .ok (ofOpen text.toList [] (some fault)) := by
  simp only [locate, h]

theorem locate_of_ok (h : Cursor.open? text.toList = .ok c) (hwalk : walk parsing c = .ok () w) :
    locate parsing text = .ok (ofOpen text.toList w.held none) := by
  simp only [locate, h, hwalk]

theorem locate_of_fault (h : Cursor.open? text.toList = .ok c)
    (hwalk : walk parsing c = .error (.fault fault) w) :
    locate parsing text = .ok (ofOpen text.toList w.held (some fault)) := by
  simp only [locate, h, hwalk]

theorem locate_of_propagation {position : Nat} (h : Cursor.open? text.toList = .ok c)
    (hwalk : walk parsing c = .error (.propagation position) w) :
    locate parsing text = .error (.propagation position) := by
  simp only [locate, h, hwalk]

/-- If there is an answer where the walk fails, the failure is a fault: a walk that meets null propagation has
no answer. -/
theorem eq_of_locate_of_error (h : locate parsing text = .ok r) (hopen : Cursor.open? text.toList = .ok c)
    (hwalk : walk parsing c = .error failure w) :
    ∃ fault, failure = .fault fault ∧ r = ofOpen text.toList w.held (some fault) := by
  simp only [locate, hopen, hwalk] at h
  cases failure with
  | fault fault =>
    cases h
    exact ⟨fault, rfl, rfl⟩
  | _ => cases h

end

/-- Where nothing is open the fragment is the text. -/
theorem text_of_nil (text : String) (stoppedBy : Option Fault) :
    (ofOpen text.toList [] stoppedBy).text = text := by
  simp [ofOpen, Text.dropBytes?]

/-- An answer is that for the operands that are open when the walk is over. -/
theorem eq_ofOpen_of_locate {parsing : Parsing} {text : String} {r : Fragment}
    (h : locate parsing text = .ok r) : ∃ starts stoppedBy, r = ofOpen text.toList starts stoppedBy ∧
      (starts = [] ∨ ∃ c, Cursor.open? text.toList = .ok c ∧ starts = (walk parsing c).walk.held) := by
  cases hopen : Cursor.open? text.toList with
  | error fault =>
    cases (locate_of_unopened hopen).symm.trans h
    exact ⟨[], _, rfl, .inl rfl⟩
  | ok c =>
    simp only [locate, hopen] at h
    split at h <;> rename_i hwalk <;> cases h <;>
      exact ⟨_, _, rfl, .inr ⟨c, rfl, by rw [hwalk]; rfl⟩⟩

/-- An answer starts at an operand that is open when the walk is over, or where the text does. -/
theorem start_of_locate {parsing : Parsing} {text : String} {r : Fragment}
    (h : locate parsing text = .ok r) : r.start = 0 ∨ ∃ c, Cursor.open? text.toList = .ok c ∧
      r.start ∈ (walk parsing c).walk.held := by
  obtain ⟨starts, stoppedBy, rfl, hstarts⟩ := eq_ofOpen_of_locate h
  cases starts with
  | nil => exact .inl rfl
  | cons start starts =>
    obtain ⟨c, hopen, hheld⟩ := hstarts.resolve_left nofun
    exact .inr ⟨c, hopen, hheld ▸ List.mem_cons_self⟩

/-- A fragment is what its text has from where it starts on. -/
theorem text_of_locate {parsing : Parsing} {front rest : String} {r : Fragment}
    (h : locate parsing (front ++ rest) = .ok r) (hstart : r.start = front.utf8ByteSize) :
    r.text = rest := by
  obtain ⟨starts, stoppedBy, rfl, -⟩ := eq_ofOpen_of_locate h
  have hdrop : Text.dropBytes? (starts.headD 0) (front ++ rest).toList = some rest.toList := by
    rw [show starts.headD 0 = front.utf8ByteSize from hstart, ← Text.byteSize_toList,
      String.toList_append, Text.dropBytes?_append]
  show String.ofList ((Text.dropBytes? (starts.headD 0) (front ++ rest).toList).getD []) = rest
  rw [hdrop]
  simp

/-- The stack is in order when the walk of a text is over, however it ends. -/
theorem sound_walk (parsing : Parsing) {text : List Char} {c : Cursor}
    (h : Cursor.open? text = .ok c) : Sound text 0 (walk parsing c).walk := by
  have hreader := sound_reader parsing h
  cases hwalk : walk parsing c with
  | ok _ w => exact (hreader.ok hwalk).toSound
  | error failure w => exact (hreader.error hwalk).1

/-- A fault that keeps the walk of a text from its end, or from its first token. -/
def Stops (parsing : Parsing) (text : List Char) (fault : Fault) : Prop :=
  match Cursor.open? text with
  | .error fault' => fault' = fault
  | .ok c => ∃ w, walk parsing c = .error (.fault fault) w

/-- What is right about an answer for a text. -/
structure Answers (parsing : Parsing) (text : String) (r : Fragment) : Prop where
  within : r.start ≤ text.utf8ByteSize
  /-- The fragment is the rest of the text, which can be cut where it starts. -/
  rest : Text.dropBytes? r.start text.toList = some r.text.toList
  at_token : r.start = 0 ∨ ∃ past c, Reaches text.toList past c ∧ c.current.start = r.start
  stopped : ∀ fault, r.stoppedBy = some fault ↔ Stops parsing text.toList fault

/-- An answer is right if starts of tokens are open and what stopped the walk is part of it. -/
theorem answers_ofOpen {parsing : Parsing} {text : String} {starts : List Nat}
    {stoppedBy : Option Fault} (hstarts : ∀ start ∈ starts, Opened text.toList start)
    (hstop : ∀ fault, stoppedBy = some fault ↔ Stops parsing text.toList fault) :
    Answers parsing text (ofOpen text.toList starts stoppedBy) := by
  cases starts with
  | nil =>
    exact ⟨Nat.zero_le _, by simp [ofOpen, Text.dropBytes?], .inl rfl, hstop⟩
  | cons start starts =>
    obtain ⟨past, c, hreached, rfl, -⟩ := hstarts start List.mem_cons_self
    obtain ⟨read, rest, htext, hread⟩ := hreached.boundary
    have hdrop : Text.dropBytes? c.current.start text.toList = some rest := by
      rw [htext, ← hread]
      exact Text.dropBytes?_append read rest
    refine ⟨Text.byteSize_toList text ▸ hreached.start_le, ?_, .inr ⟨past, c, hreached, rfl⟩, hstop⟩
    simp [ofOpen, hdrop]

/-- What stops the walk of a text has the excuse that it needs. -/
theorem excused_of_stops {parsing : Parsing} {text : List Char} {fault : Fault}
    (h : Stops parsing text fault) : Excused text (.fault fault) := by
  unfold Stops at h
  split at h
  · rename_i hopen
    exact excused_of_isPlain (h ▸ Cursor.isPlain_of_read hopen)
  · rename_i hopen
    obtain ⟨w, hwalk⟩ := h
    exact ((sound_reader parsing hopen).error hwalk).2

/-- For a text that is not refused there is a sound answer. -/
theorem answers_of_locate {parsing : Parsing} {text : String} {r : Fragment}
    (h : locate parsing text = .ok r) : Answers parsing text r := by
  cases hopen : Cursor.open? text.toList with
  | error fault =>
    rw [locate_of_unopened hopen] at h
    cases h
    exact answers_ofOpen nofun fun fault' => by simp [Stops, hopen]
  | ok c =>
    -- Whichever way the walk ends, what it leaves open is in order.
    have hreader := sound_reader parsing hopen
    cases hwalk : walk parsing c with
    | ok _ w =>
      rw [locate_of_ok hopen hwalk] at h
      cases h
      exact answers_ofOpen (hreader.ok hwalk).opened fun fault => by simp [Stops, hopen, hwalk]
    | error failure w =>
      obtain ⟨fault, rfl, rfl⟩ := eq_of_locate_of_error h hopen hwalk
      exact answers_ofOpen (hreader.error hwalk).1.opened fun fault' => by simp [Stops, hopen, hwalk]

/-- What is refused is a null propagation that stands in the text. -/
theorem propagation_of_locate_error {parsing : Parsing} {text : String} {failure : Failure}
    (h : locate parsing text = .error failure) :
    ∃ past c, Reaches text.toList past c ∧ c.current.kind = .propagate ∧
      failure = .propagation c.current.start := by
  cases hopen : Cursor.open? text.toList with
  | error fault =>
    rw [locate_of_unopened hopen] at h
    cases h
  | ok c =>
    cases hwalk : walk parsing c with
    | ok _ w =>
      rw [locate_of_ok hopen hwalk] at h
      cases h
    | error failure' w =>
      -- A walk that fails has an excuse, and only that of a null propagation is no answer.
      have hexcused := ((sound_reader parsing hopen).error hwalk).2
      cases failure' with
      | fault fault =>
        rw [locate_of_fault hopen hwalk] at h
        cases h
      | propagation position =>
        rw [locate_of_propagation hopen hwalk] at h
        cases h
        obtain ⟨past, c, hreached, hkind, hposition⟩ := hexcused
        exact ⟨past, c, hreached, hkind, hposition ▸ rfl⟩
      | invalidCaret => exact hexcused.elim
      | sourceTooLarge => exact hexcused.elim

/-- **The answer of the locator is sound.**  A null propagation that stands in the text is refused;
for all other texts there is a fragment.  It starts within the text, at its start or where a token
starts, and is the rest of the text from there on.  What stopped the walk is part of the answer. -/
theorem locate_sound (parsing : Parsing) (text : String) :
    match locate parsing text with
    | .error failure => ∃ past c, Reaches text.toList past c ∧ c.current.kind = .propagate ∧
        failure = .propagation c.current.start
    | .ok r => Answers parsing text r := by
  cases hlocate : locate parsing text with
  | error failure => exact propagation_of_locate_error hlocate
  | ok r => exact answers_of_locate hlocate

end TypeAhead.Fragment
