/-
  TypeAhead.Proofs.Text.Places — WHERE AN OFFSET IS SHOWN.

  A place is found by walking the characters while their bytes fit.  What has been
  walked is the longest start of the text that ends at or before the offset, and the
  line and the column count in it: its line feeds, and its characters behind the last
  one.  Reading on either ends a line or goes on in it, so places come in the order of
  their offsets.

      advance_eq             what the walk counts
      place_lt               reading on leads to a later place
      between_eq_slice       what a span covers
      locate_counts          places and spans of every text
-/
import Mathlib.Algebra.Group.Nat.Defs
import Mathlib.Data.Prod.Lex
import Mathlib.Order.Monotone.Basic
import TypeAhead.Proofs.WordAtCaret
import TypeAhead.Text.Position

namespace TypeAhead.Text

variable {text front gap : List Char} {offset start stop : Nat}

/-! ## §1. What has been read. -/

/-- The characters of the text that end at or before the offset: `front` has just those starts of the
text that take no more bytes. -/
structure EndsBefore (text : List Char) (offset : Nat) (front : List Char) : Prop where
  start : front <+: text
  covers : ∀ read, read <+: text → (read <+: front ↔ byteSize read ≤ offset)

/-- There is one such start. -/
theorem EndsBefore.unique {other : List Char} (h : EndsBefore text offset front)
    (hother : EndsBefore text offset other) : front = other := by
  have hfront := (hother.covers front h.start).2 ((h.covers front h.start).1 List.prefix_rfl)
  have hback := (h.covers other hother.start).2 ((hother.covers other hother.start).1 List.prefix_rfl)
  exact hfront.eq_of_length_le hback.length_le

/-- Where the text can be cut, all up to the cut has been read. -/
theorem endsBefore_append (front rest : List Char) :
    EndsBefore (front ++ rest) (byteSize front) front := by
  refine ⟨List.prefix_append front rest, fun read hread => ⟨?_, fun hsize => ?_⟩⟩
  · rintro ⟨more, rfl⟩
    rw [byteSize_append]
    exact Nat.le_add_right _ _
  · exact isPrefix_of_byteSize_le hread (List.prefix_append front rest) hsize

/-- It is what fits into the offset. -/
theorem endsBefore_takeWithin (text : List Char) (offset : Nat) :
    EndsBefore text offset (takeWithin offset text) := by
  -- Character by character: one is taken if it ends within the offset.
  induction text generalizing offset with
  | nil => exact ⟨List.prefix_rfl, fun read hread => by simp_all [takeWithin]⟩
  | cons c cs ih =>
    rw [takeWithin]
    split
    · rename_i hfits
      obtain ⟨hstart, hcovers⟩ := ih (offset - c.utf8Size)
      refine ⟨List.cons_prefix_cons.2 ⟨rfl, hstart⟩, fun read hread => ?_⟩
      rcases List.prefix_cons_iff.1 hread with rfl | ⟨more, rfl, hmore⟩
      · simp
      · rw [List.cons_prefix_cons, hcovers more hmore, byteSize_cons]
        exact ⟨fun ⟨_, h⟩ => by omega, fun h => ⟨rfl, by omega⟩⟩
    · rename_i hlong
      refine ⟨List.nil_prefix, fun read hread => ?_⟩
      rcases List.prefix_cons_iff.1 hread with rfl | ⟨more, rfl, hmore⟩
      · simp
      · simp only [List.prefix_nil, reduceCtorEq, byteSize_cons, false_iff]
        omega

/-! ## §2. Lines and columns. -/

/-- How many characters there are behind the last line feed. -/
def sinceBreak (front : List Char) : Nat := (front.reverse.takeWhile (· ≠ '\n')).length

theorem sinceBreak_break (front : List Char) : sinceBreak (front ++ ['\n']) = 0 := by
  simp [sinceBreak]

theorem sinceBreak_append (hgap : '\n' ∉ gap) (front : List Char) :
    sinceBreak (front ++ gap) = sinceBreak front + gap.length := by
  have hall : ∀ c ∈ gap.reverse, decide (c ≠ '\n') = true := by
    intro c hc
    exact decide_eq_true (ne_of_mem_of_not_mem (List.mem_reverse.1 hc) hgap)
  rw [sinceBreak, List.reverse_append, List.takeWhile_append_of_pos hall, List.length_append,
    List.length_reverse, Nat.add_comm]
  rfl

/-- **What the walk counts** are the line feeds and the characters behind the last one. -/
theorem advance_eq (front : List Char) (offset : Nat) (cs : List Char) :
    Position.advance (1 + front.count '\n') (1 + sinceBreak front) offset cs =
      (1 + (front ++ takeWithin offset cs).count '\n', 1 + sinceBreak (front ++ takeWithin offset cs)) := by
  -- What has been read is `front`, of which lines and columns are counted.
  induction cs generalizing front offset with
  | nil => simp [Position.advance, takeWithin]
  | cons c cs ih =>
    rw [Position.advance, takeWithin]
    split
    · specialize ih (front ++ [c]) (offset - c.utf8Size)
      rw [List.append_assoc, List.singleton_append, List.count_append] at ih
      rw [← ih]
      split
      -- A break starts a line, anything else a column.
      · rename_i hc
        rw [hc, sinceBreak_break, List.count_singleton_self]
        rfl
      · rename_i hc
        have hnone : '\n' ∉ [c] := fun h => hc (List.mem_singleton.1 h).symm
        rw [sinceBreak_append hnone, List.count_eq_zero_of_not_mem hnone]
        rfl
    · rw [List.append_nil]

/-- The place of an offset, by what has been read. -/
theorem locate_of_endsBefore (h : EndsBefore text (min offset (byteSize text)) front) :
    Position.locate text offset =
      ⟨min offset (byteSize text), 1 + front.count '\n', 1 + sinceBreak front⟩ := by
  have hadvance := advance_eq [] (min offset (byteSize text)) text
  rw [h.unique (endsBefore_takeWithin text _)]
  simp only [Position.locate]
  rw [show Position.advance 1 1 _ text = _ from hadvance]
  rfl

/-- The place of an offset between two characters. -/
theorem locate_append (front rest : List Char) :
    Position.locate (front ++ rest) (byteSize front) =
      ⟨byteSize front, 1 + front.count '\n', 1 + sinceBreak front⟩ := by
  have hmin : min (byteSize front) (byteSize (front ++ rest)) = byteSize front := by
    rw [byteSize_append]
    omega
  have hread : EndsBefore (front ++ rest) (min (byteSize front) (byteSize (front ++ rest))) front :=
    hmin.symm ▸ endsBefore_append front rest
  rw [locate_of_endsBefore hread, hmin]

/-- Each character is counted once at most. -/
theorem count_add_sinceBreak_le (front : List Char) :
    front.count '\n' + sinceBreak front ≤ front.length := by
  have hnone : (front.reverse.takeWhile (· ≠ '\n')).count '\n' = 0 := by
    refine List.count_eq_zero_of_not_mem fun hmem => ?_
    simpa using List.all_eq_true.1 List.all_takeWhile _ hmem
  have hcount : front.count '\n' = (front.reverse.dropWhile (· ≠ '\n')).count '\n' := by
    rw [← List.count_reverse, ← List.takeWhile_append_dropWhile (p := (· ≠ '\n')) (l := front.reverse),
      List.count_append, hnone, List.takeWhile_append_dropWhile, Nat.zero_add]
  have htotal : sinceBreak front + (front.reverse.dropWhile (· ≠ '\n')).length = front.length := by
    rw [sinceBreak, ← List.length_append, List.takeWhile_append_dropWhile, List.length_reverse]
  have hbound := List.count_le_length (a := '\n') (l := front.reverse.dropWhile (· ≠ '\n'))
  omega

/-! ## §3. The order of places. -/

/-- Line and column, the line first. -/
def place (text : List Char) (offset : Nat) : Nat ×ₗ Nat :=
  toLex ((Position.locate text offset).line, (Position.locate text offset).column)

/-- **Reading on leads to a later place.** -/
theorem place_lt (hgap : gap ≠ []) (front rest : List Char) :
    place (front ++ gap ++ rest) (byteSize front) <
      place (front ++ gap ++ rest) (byteSize (front ++ gap)) := by
  rw [place, place, locate_append (front ++ gap) rest, List.append_assoc, locate_append front,
    Prod.Lex.toLex_lt_toLex, List.count_append]
  dsimp only
  by_cases hbreak : '\n' ∈ gap
  · have := List.count_pos_iff.2 hbreak
    exact .inl (by omega)
  · have := List.length_pos_iff.2 hgap
    rw [List.count_eq_zero_of_not_mem hbreak, sinceBreak_append hbreak]
    exact .inr ⟨by omega, by omega⟩

/-- **Places come in the order of their offsets.** -/
theorem place_strictMonoOn (text : List Char) :
    StrictMonoOn (place text) {offset | IsBoundary text offset} := by
  rintro a ⟨front, behind, rfl, rfl⟩ b ⟨read, rest, htext, rfl⟩ hlt
  obtain ⟨gap, rfl⟩ := isPrefix_of_byteSize_le ⟨behind, rfl⟩ ⟨rest, htext.symm⟩ (Nat.le_of_lt hlt)
  have hgap : gap ≠ [] := by
    rintro rfl
    rw [List.append_nil] at hlt
    exact Nat.lt_irrefl _ hlt
  rw [htext]
  exact place_lt hgap front rest

/-! ## §4. Spans. -/

/-- What lies between two offsets is the middle of three parts. -/
theorem slice?_eq_some_iff {middle : List Char} :
    slice? start stop text = some middle ↔
      ∃ before rest, text = before ++ middle ++ rest ∧ byteSize before = start ∧
        byteSize (before ++ middle) = stop := by
  constructor
  · intro h
    obtain ⟨taken, htaken, hdrop⟩ := Option.bind_eq_some_iff.1 h
    obtain ⟨rest, htext, hstop⟩ := takeBytes?_eq_some htaken
    obtain ⟨before, rfl, hstart⟩ := dropBytes?_eq_some hdrop
    exact ⟨before, rest, htext, hstart, hstop⟩
  · rintro ⟨before, rest, rfl, rfl, rfl⟩
    exact slice?_append before middle rest

/-- A span does not end before it starts. -/
theorem between_start_le (text : List Char) (start stop : Nat) :
    (Span.between text start stop).start.offset ≤ (Span.between text start stop).stop.offset := by
  change min start (byteSize text) ≤ min (max stop start) (byteSize text)
  omega

/-- **What a span covers**, with both its offsets brought into the text and into order. -/
theorem between_eq_slice (text : List Char) (start stop : Nat) :
    (Span.between text start stop).slice? text =
      slice? (min start (byteSize text)) (min (max start stop) (byteSize text)) text := by
  rw [Span.slice?, if_pos (between_start_le text start stop), Nat.max_comm start stop]
  rfl

/-- **Places and spans of every text.**  The line of an offset counts the line feeds, and its column the
characters behind the last of them, among the characters that end at or before it; both are counted from
one, and neither outgrows 32 bits before the text does.  Between characters, a later offset has a later
place, so no two have the same.  A span of any two offsets does not end before it starts, and covers what
lies between them, both brought into the text and into order. -/
theorem locate_counts (text : List Char) :
    (∀ offset, ∃ front, EndsBefore text (min offset (byteSize text)) front ∧
      Position.locate text offset =
        ⟨min offset (byteSize text), 1 + front.count '\n', 1 + sinceBreak front⟩) ∧
    (text.length < 2 ^ 32 - 1 → ∀ offset,
      (Position.locate text offset).line < 2 ^ 32 ∧ (Position.locate text offset).column < 2 ^ 32) ∧
    StrictMonoOn (place text) {offset | IsBoundary text offset} ∧
    Set.InjOn (place text) {offset | IsBoundary text offset} ∧
    ∀ start stop,
      (Span.between text start stop).start.offset ≤ (Span.between text start stop).stop.offset ∧
      (Span.between text start stop).start.offset + (Span.between text start stop).size =
        (Span.between text start stop).stop.offset ∧
      (Span.between text start stop).slice? text =
        slice? (min start (byteSize text)) (min (max start stop) (byteSize text)) text ∧
      ∀ middle, (Span.between text start stop).slice? text = some middle ↔
        ∃ before rest, text = before ++ middle ++ rest ∧
          byteSize before = min start (byteSize text) ∧
          byteSize (before ++ middle) = min (max start stop) (byteSize text) := by
  have hread : ∀ offset, EndsBefore text (min offset (byteSize text))
      (takeWithin (min offset (byteSize text)) text) := fun offset => endsBefore_takeWithin text _
  -- Lines and columns are counted up to the offset, or up to the start of a character that it cuts.
  refine ⟨fun offset => ⟨_, hread offset, locate_of_endsBefore (hread offset)⟩,
    fun hlength offset => ?_, place_strictMonoOn text, (place_strictMonoOn text).injOn,
    fun start stop => ⟨between_start_le text start stop, ?_, between_eq_slice text start stop,
      fun middle => ?_⟩⟩
  · have hcount := count_add_sinceBreak_le (takeWithin (min offset (byteSize text)) text)
    have hwithin := (hread offset).start.length_le
    rw [locate_of_endsBefore (hread offset)]
    dsimp only
    omega
  · exact Nat.add_sub_cancel' (between_start_le text start stop)
  · rw [between_eq_slice, slice?_eq_some_iff]

/-- Two lines, the first one of a character of two bytes, and a span that ends past both. -/
theorem locate_counts_of_twoLines :
    "é\nx".toList.length < 2 ^ 32 - 1 ∧ (Position.locate "é\nx".toList 9).line < 2 ^ 32 ∧
      IsBoundary "é\nx".toList 2 ∧ IsBoundary "é\nx".toList 3 ∧ ¬ IsBoundary "é\nx".toList 1 ∧
      place "é\nx".toList 2 < place "é\nx".toList 3 ∧
      (Position.locate "é\nx".toList 2, Position.locate "é\nx".toList 3) = (⟨2, 1, 2⟩, ⟨3, 2, 1⟩) ∧
      (Span.between "é\nx".toList 2 9).slice? "é\nx".toList = some ['\n', 'x'] := by
  obtain ⟨-, hbits, horder, -, hspan⟩ := locate_counts "é\nx".toList
  have hcut : ∀ offset, IsBoundary "é\nx".toList offset ↔
      (takeBytes? offset "é\nx".toList).isSome = true := fun offset =>
    (isSome_takeBytes?_iff _ offset).symm
  have htwo : IsBoundary "é\nx".toList 2 := (hcut 2).2 (by decide)
  have hthree : IsBoundary "é\nx".toList 3 := (hcut 3).2 (by decide)
  refine ⟨by decide, (hbits (by decide) 9).1, htwo, hthree, fun h => ?_,
    horder htwo hthree (by decide), by decide, ?_⟩
  · exact absurd ((hcut 1).1 h) (by decide)
  · exact ((hspan 2 9).2.2.2 _).2 ⟨['é'], [], rfl, rfl, rfl⟩

end TypeAhead.Text
