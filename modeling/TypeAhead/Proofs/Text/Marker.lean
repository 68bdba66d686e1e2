/-
  TypeAhead.Proofs.Text.Marker — THE MARKER OF A DIAGNOSTIC.

  A diagnostic quotes a line behind its number and marks a column below.  The line
  that it quotes is the one of the offset, whole, and the blanks before the marker are
  one for each character in front of the offset.  The gutters are not alike, though:
  the one of the marker has three blanks more than the quoted line has digits, so the
  marker stands three columns to the right of its character, whatever the text, the
  offset and the width of the number.

      exists_lineAround      every offset between characters lies in a line
      line?_of_lineAround    which is the line that is quoted
      toList_diagnose        the two gutters
      marker_right           where the marker stands
-/
import Mathlib.Data.List.Basic
import TypeAhead.Proofs.Text.Places
import TypeAhead.Text.Diagnostic

namespace TypeAhead.Text

variable {text before front rest after : List Char} {offset : Nat}

/-! ## §1. The line of an offset. -/

/-- A text around an offset: whole lines, the start of a line up to the offset, what is left of that
line, and all from its end on. -/
structure LineAround (text : List Char) (offset : Nat) (before front rest after : List Char) : Prop where
  text_eq : text = before ++ front ++ rest ++ after
  offset_eq : byteSize (before ++ front) = offset
  before_ends : ∀ c ∈ before.getLast?, c = '\n'
  one_line : '\n' ∉ front ++ rest
  after_starts : ∀ c ∈ after.head?, c = '\n'

/-- Every text is whole lines and the start of one. -/
theorem exists_wholeLines (read : List Char) :
    ∃ before front, read = before ++ front ∧ (∀ c ∈ before.getLast?, c = '\n') ∧ '\n' ∉ front := by
  induction read with
  | nil => exact ⟨[], [], rfl, nofun, List.not_mem_nil⟩
  | cons c cs ih =>
    obtain ⟨before, front, rfl, hbefore, hfront⟩ := ih
    cases before with
    | nil =>
      by_cases hc : c = '\n'
      · exact ⟨[c], front, rfl, by simp [hc], hfront⟩
      · exact ⟨[], c :: front, rfl, nofun, by simp [Ne.symm hc, hfront]⟩
    | cons d before =>
      refine ⟨c :: d :: before, front, rfl, ?_, hfront⟩
      rwa [List.getLast?_cons_cons]

/-- Every text starts with one line, up to its end. -/
theorem exists_lineEnd (ahead : List Char) :
    ∃ rest after, ahead = rest ++ after ∧ '\n' ∉ rest ∧ ∀ c ∈ after.head?, c = '\n' := by
  refine ⟨ahead.takeWhile (· ≠ '\n'), ahead.dropWhile (· ≠ '\n'),
    List.takeWhile_append_dropWhile.symm, fun h => ?_, fun c hc => ?_⟩
  · simpa using List.all_eq_true.1 List.all_takeWhile _ h
  · have hstops := List.head?_dropWhile_not (· ≠ '\n') ahead
    rw [Option.mem_def.1 hc] at hstops
    simpa using hstops

/-- **Every offset between characters lies in a line.** -/
theorem exists_lineAround (h : IsBoundary text offset) :
    ∃ before front rest after, LineAround text offset before front rest after := by
  obtain ⟨read, ahead, rfl, rfl⟩ := h
  obtain ⟨before, front, rfl, hbefore, hfront⟩ := exists_wholeLines read
  obtain ⟨rest, after, rfl, hrest, hafter⟩ := exists_lineEnd ahead
  refine ⟨before, front, rest, after, by simp, rfl, hbefore, ?_, hafter⟩
  rw [List.mem_append, not_or]
  exact ⟨hfront, hrest⟩

/-! ## §2. What is quoted. -/

/-- Whole lines are dropped whole. -/
theorem dropLines_append (hbefore : ∀ c ∈ before.getLast?, c = '\n') (cs : List Char) :
    dropLines (before.count '\n') (before ++ cs) = cs := by
  -- What is before is whole lines, so that its last character ends one.
  induction before with
  | nil => cases cs <;> rfl
  | cons c before ih =>
    have hrest : ∀ d ∈ before.getLast?, d = '\n' := by
      intro d hd
      cases before with
      | nil => cases hd
      | cons e before => exact hbefore d (by rwa [List.getLast?_cons_cons])
    by_cases hc : c = '\n'
    · rw [hc, List.count_cons_self, List.cons_append, dropLines, if_pos rfl, ih hrest]
    · -- The line goes on, so its end is still to come.
      obtain ⟨n, hn⟩ : ∃ n, before.count '\n' = n + 1 := by
        refine Nat.exists_eq_add_one.2 (List.count_pos_iff.2 ?_)
        cases before with
        | nil => exact absurd (hbefore c rfl) hc
        | cons e before => exact hrest _ (List.getLast?_eq_some_getLast (List.cons_ne_nil e before)) ▸
            List.getLast_mem (List.cons_ne_nil e before)
      rw [List.count_cons_of_ne hc, hn, List.cons_append, dropLines, if_neg hc, ← hn, ih hrest]

/-- **The line that is quoted**, in a text without carriage returns; there is none behind the last line
end. -/
theorem line?_of_lineAround (h : LineAround text offset before front rest after) (hreturn : '\r' ∉ text) :
    (line? text (1 + before.count '\n')).getD [] = front ++ rest := by
  -- The line is what is before the next break.
  have hline : (front ++ rest ++ after).takeWhile (· ≠ '\n') = front ++ rest := by
    have hall : ∀ c ∈ front ++ rest, decide (c ≠ '\n') = true := fun c hc =>
      decide_eq_true (ne_of_mem_of_not_mem hc h.one_line)
    rw [List.takeWhile_append_of_pos hall]
    cases hafter : after with
    | nil => simp
    | cons c cs => simp [h.after_starts c (by rw [hafter]; rfl)]
  -- And it does not end in a return, which would be taken off.
  have hlast : ((front ++ rest).getLast? == some '\r') = false := by
    refine beq_eq_false_iff_ne.2 fun hlast => hreturn ?_
    have := List.mem_of_getLast? hlast
    rw [h.text_eq]
    simp only [List.mem_append] at this ⊢
    tauto
  have hrest : dropLines (before.count '\n') text = front ++ rest ++ after := by
    rw [h.text_eq, List.append_assoc, List.append_assoc, dropLines_append h.before_ends,
      List.append_assoc]
  rw [Nat.add_comm, line?, hrest, hline, hlast, Bool.and_false]
  cases hempty : (front ++ rest ++ after).isEmpty with
  | true =>
    rw [List.isEmpty_iff, List.append_eq_nil_iff] at hempty
    rw [hempty.1]
    rfl
  | false => rfl

/-- The place of an offset in its line. -/
theorem locate_of_lineAround (h : LineAround text offset before front rest after) :
    Position.locate text offset = ⟨offset, 1 + before.count '\n', 1 + front.length⟩ := by
  have hfront : '\n' ∉ front := fun hmem => h.one_line (List.mem_append_left rest hmem)
  have hbefore : sinceBreak before = 0 := by
    rcases List.eq_nil_or_concat before with hnil | ⟨init, last, hlast⟩
    · rw [hnil]
      rfl
    · have hbreak := h.before_ends last (by rw [hlast]; simp)
      rw [hlast, hbreak, List.concat_eq_append, sinceBreak_break]
  rw [h.text_eq, ← h.offset_eq, List.append_assoc _ rest after, locate_append (before ++ front),
    sinceBreak_append hfront, hbefore, Nat.zero_add, List.count_append, List.count_eq_zero_of_not_mem hfront]
  rfl

/-! ## §3. Where the marker stands. -/

/-- What stands before the quoted line. -/
def quoteGutter (number : List Char) : List Char := number ++ " | ".toList

/-- What stands before the marker, but for the blanks of its column. -/
def markGutter (number : List Char) : List Char := List.replicate (number.length + 3) ' ' ++ " | ".toList

/-- The gutter of the marker is the wider one, for any number. -/
theorem length_markGutter (number : List Char) :
    (markGutter number).length = (quoteGutter number).length + 3 := by
  rw [markGutter, quoteGutter, List.length_append, List.length_append, List.length_replicate]
  omega

/-- **The last two lines** of a diagnostic. -/
theorem toList_diagnose (text : List Char) (offset : Nat) (message : String) {place : Position}
    (hplace : Position.locate text offset = place) :
    ∃ above, (diagnose text offset message).toList =
      above ++ '\n' :: (quoteGutter (Nat.toDigits 10 place.line) ++ (line? text place.line).getD []) ++
        '\n' :: (markGutter (Nat.toDigits 10 place.line) ++ List.replicate (place.column - 1) ' ' ++ ['^']) ++
        ['\n'] := by
  have hnumber : place.line.repr.toList = Nat.toDigits 10 place.line := Nat.toList_repr
  have hlength : place.line.repr.length = (Nat.toDigits 10 place.line).length := by
    rw [← hnumber, String.length_toList]
  refine ⟨"Error: ".toList ++ message.toList ++ "\n  --> ".toList ++ place.render.toList ++ "\n   ".toList ++
    List.replicate (Nat.toDigits 10 place.line).length ' ' ++ " |".toList, ?_⟩
  unfold diagnose
  rw [hplace]
  simp only [toString, blanks, hlength, String.toList_append, String.toList_ofList, hnumber]
  simp [quoteGutter, markGutter, Nat.add_comm _ 3, List.replicate_add]

/-- The last two lines of the diagnostic are one that quotes the line of the offset, behind some gutter, and
one with the marker; the marker stands `shift` columns to the right of where the character at the offset is
in the line that quotes it, or of where that line ends. -/
def MarkedRight (shift : Nat) (text : List Char) (offset : Nat) (message : String) : Prop :=
  ∃ before front rest after above gutter mark,
    LineAround text offset before front rest after ∧
    (diagnose text offset message).toList =
      above ++ '\n' :: (gutter ++ front ++ rest) ++ '\n' :: mark ++ ['\n'] ∧
    '\n' ∉ gutter ++ front ++ rest ∧ '\n' ∉ mark ∧
    mark.count '^' = 1 ∧ mark.idxOf '^' = (gutter ++ front).length + shift

/-- A number is written in digits. -/
theorem not_mem_quoteGutter {c : Char} (hdigit : c.isDigit = false) (hgutter : c ∉ " | ".toList) (n : Nat) :
    c ∉ quoteGutter (Nat.toDigits 10 n) := by
  rw [quoteGutter, List.mem_append, not_or]
  refine ⟨fun hmem => ?_, hgutter⟩
  rw [Nat.isDigit_of_mem_toDigits (by decide) (by decide) hmem] at hdigit
  cases hdigit

theorem not_mem_markGutter {c : Char} (hblank : c ≠ ' ') (hgutter : c ∉ " | ".toList) (number : List Char) :
    c ∉ markGutter number := by
  rw [markGutter, List.mem_append, not_or]
  exact ⟨fun hmem => hblank (List.eq_of_mem_replicate hmem), hgutter⟩

/-- The marker stands three columns too far to the right. -/
theorem markedRight_three (h : LineAround text offset before front rest after) (hreturn : '\r' ∉ text)
    (message : String) : MarkedRight 3 text offset message := by
  obtain ⟨above, hlines⟩ := toList_diagnose text offset message (locate_of_lineAround h)
  rw [line?_of_lineAround h hreturn, ← List.append_assoc] at hlines
  dsimp only at hlines
  rw [Nat.add_sub_cancel_left] at hlines
  -- Nothing before the marker is one.
  have hclear : ∀ c, c ≠ ' ' → c ∉ " | ".toList →
      c ∉ markGutter (Nat.toDigits 10 (1 + before.count '\n')) ++ List.replicate front.length ' ' := by
    intro c hblank hgutter hmem
    rcases List.mem_append.1 hmem with hmem | hmem
    · exact not_mem_markGutter hblank hgutter _ hmem
    · exact hblank (List.eq_of_mem_replicate hmem)
  have hmarker := hclear '^' (by decide) (by decide)
  -- The quoted line has no break in it, the one below it has the marker three columns further on.
  refine ⟨before, front, rest, after, above, _, _, h, hlines, ?_, ?_, ?_, ?_⟩
  · rw [List.append_assoc, List.mem_append, not_or]
    exact ⟨not_mem_quoteGutter rfl (by decide) _, h.one_line⟩
  · rw [List.mem_append, not_or]
    exact ⟨hclear '\n' (by decide) (by decide), by decide⟩
  · rw [List.count_append, List.count_eq_zero_of_not_mem hmarker]
    rfl
  · rw [List.idxOf_append_of_notMem hmarker, List.idxOf_cons_self, List.length_append, List.length_append,
      List.length_replicate, length_markGutter]
    omega

/-- A text ends in one last line. -/
theorem lastLine_unique {above above' line line' : List Char} (hline : '\n' ∉ line) (hline' : '\n' ∉ line')
    (h : above ++ '\n' :: line = above' ++ '\n' :: line') : above = above' ∧ line = line' := by
  have hlast : ∀ above line : List Char, '\n' ∉ line →
      (above ++ '\n' :: line).reverse.takeWhile (· ≠ '\n') = line.reverse := by
    intro above line hline
    have hall : ∀ c ∈ line.reverse, decide (c ≠ '\n') = true := fun c hc =>
      decide_eq_true (ne_of_mem_of_not_mem (List.mem_reverse.1 hc) hline)
    rw [List.reverse_append, List.reverse_cons, List.append_assoc, List.takeWhile_append_of_pos hall]
    simp
  have heq : line = line' := by
    rw [← List.reverse_inj, ← hlast above line hline, h, hlast above' line' hline']
  exact ⟨List.append_cancel_right (heq ▸ h), heq⟩

/-- The line of an offset, and how far into it the offset is, are determined by the offset. -/
theorem LineAround.unique {before' front' rest' after' : List Char}
    (h : LineAround text offset before front rest after)
    (h' : LineAround text offset before' front' rest' after') (hreturn : '\r' ∉ text) :
    front.length = front'.length ∧ front ++ rest = front' ++ rest' := by
  have hplace := (locate_of_lineAround h).symm.trans (locate_of_lineAround h')
  have hcolumn := congrArg Position.column hplace
  have hnumber := congrArg Position.line hplace
  dsimp only at hcolumn hnumber
  refine ⟨Nat.add_left_cancel hcolumn, ?_⟩
  rw [← line?_of_lineAround h hreturn, hnumber, line?_of_lineAround h' hreturn]

/-- **The marker does not stand under the character** at the offset, but three columns to the right of it:
in every text without carriage returns, at every offset between characters. -/
theorem marker_right (hreturn : '\r' ∉ text) (hoffset : IsBoundary text offset) (message : String)
    (shift : Nat) : MarkedRight shift text offset message ↔ shift = 3 := by
  obtain ⟨_, _, _, _, hline⟩ := exists_lineAround hoffset
  have hthree := markedRight_three hline hreturn message
  constructor
  · rintro ⟨_, front, rest, _, above, gutter, mark, hline, hlines, hquote, hmark, -, hindex⟩
    obtain ⟨_, front', rest', _, above', gutter', mark', hline', hlines', hquote', hmark', -, hindex'⟩ := hthree
    -- Both are about the same two lines, the same start of the first, and so the same gutter.
    obtain ⟨hrest, rfl⟩ := lastLine_unique hmark hmark' (List.append_cancel_right (hlines.symm.trans hlines'))
    obtain ⟨-, hquoted⟩ := lastLine_unique hquote hquote' hrest
    obtain ⟨hfront, hwhole⟩ := hline.unique hline' hreturn
    rw [List.append_assoc, List.append_assoc, hwhole] at hquoted
    have hgutter := List.append_cancel_right hquoted
    rw [hindex, hgutter, List.length_append, List.length_append, hfront] at hindex'
    exact Nat.add_left_cancel hindex'
  · rintro rfl
    exact hthree

/-- On the second line, behind a character of two bytes. -/
theorem marker_right_of_sum :
    '\r' ∉ "a\né + #".toList ∧ IsBoundary "a\né + #".toList 7 ∧
      (∀ shift, MarkedRight shift "a\né + #".toList 7 "Syntax error" ↔ shift = 3) ∧
      (diagnose "a\né + #".toList 7 "Syntax error").toList =
        "Error: Syntax error\n  --> 2:5\n     |\n2 | é + #\n     |     ^\n".toList := by
  have hreturn : '\r' ∉ "a\né + #".toList := by decide
  have hoffset : IsBoundary "a\né + #".toList 7 := ⟨"a\né + ".toList, ['#'], rfl, rfl⟩
  exact ⟨hreturn, hoffset, marker_right hreturn hoffset "Syntax error", by decide⟩

end TypeAhead.Text
