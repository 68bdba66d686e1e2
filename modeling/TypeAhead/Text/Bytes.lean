/-
  TypeAhead.Text.Bytes — CHARACTERS COUNTED IN BYTES.

  Offsets, carets and lengths are bytes of the UTF-8 form, while all scanning
  walks characters.  This module relates the two: the size of a run of
  characters, and the cuts of a text at a byte offset.  A cut exists exactly
  when the offset is at most the size of the text and not inside a character.

      byteSize_append        sizes add up
      dropBytes?_eq_some     a cut splits the text at the offset
      dropBytes?_append      where a text is split, it can be cut
      splitBytes?_append     into its two parts
      takeBytes?_eq_some     what a cut leaves of it
      slice?_append          or three
-/
namespace TypeAhead.Text

/-! ## §1. Size. -/

/-- The number of bytes that the characters take. -/
def byteSize (cs : List Char) : Nat :=
  cs.foldl (fun n c => n + c.utf8Size) 0

theorem foldl_utf8Size (cs : List Char) (n : Nat) :
    cs.foldl (fun n c => n + c.utf8Size) n = n + byteSize cs := by
  induction cs generalizing n with
  | nil => rfl
  | cons c cs ih =>
    simp only [byteSize, List.foldl_cons]
    rw [ih, ih (0 + c.utf8Size)]
    omega

@[simp] theorem byteSize_nil : byteSize [] = 0 := rfl

@[simp] theorem byteSize_cons (c : Char) (cs : List Char) :
    byteSize (c :: cs) = c.utf8Size + byteSize cs := by
  rw [byteSize, List.foldl_cons, foldl_utf8Size, Nat.zero_add]

@[simp] theorem byteSize_append (as bs : List Char) :
    byteSize (as ++ bs) = byteSize as + byteSize bs := by
  induction as with
  | nil => simp
  | cons c as ih => simp [ih, Nat.add_assoc]

theorem byteSize_reverse (cs : List Char) : byteSize cs.reverse = byteSize cs := by
  induction cs with
  | nil => rfl
  | cons c cs ih =>
    rw [List.reverse_cons, byteSize_append, ih, byteSize_cons, byteSize_cons, byteSize_nil]
    omega

/-- No character takes no byte. -/
theorem byteSize_pos {cs : List Char} (h : cs ≠ []) : 0 < byteSize cs := by
  cases cs with
  | nil => exact absurd rfl h
  | cons c cs =>
    have := c.utf8Size_pos
    rw [byteSize_cons]
    omega

/-- Every character takes a byte at least. -/
theorem length_le_byteSize (cs : List Char) : cs.length ≤ byteSize cs := by
  induction cs with
  | nil => exact Nat.le_refl 0
  | cons c cs ih =>
    have := c.utf8Size_pos
    rw [List.length_cons, byteSize_cons]
    omega

/-- Of two starts of a text, the one with fewer bytes is a start of the other. -/
theorem isPrefix_of_byteSize_le {as bs cs : List Char} (ha : as <+: cs) (hb : bs <+: cs)
    (hsize : byteSize as ≤ byteSize bs) : as <+: bs := by
  rcases List.prefix_or_prefix_of_prefix ha hb with h | ⟨rest, rfl⟩
  · exact h
  · rw [byteSize_append] at hsize
    have hnil : rest = [] := by
      by_cases hne : rest = []
      · exact hne
      · have := byteSize_pos hne
        omega
    subst hnil
    exact ⟨[], by rw [List.append_nil, List.append_nil]⟩

/-- The size of a string is that of its characters. -/
theorem utf8ByteSize_ofList (cs : List Char) :
    (String.ofList cs).utf8ByteSize = byteSize cs := by
  induction cs with
  | nil => rfl
  | cons c cs ih =>
    rw [byteSize_cons, ← ih, ← List.singleton_append, String.ofList_append,
      String.utf8ByteSize_append]
    rw [show String.ofList [c] = String.singleton c from rfl, String.utf8ByteSize_singleton]

theorem byteSize_toList (s : String) : byteSize s.toList = s.utf8ByteSize := by
  rw [← utf8ByteSize_ofList, String.ofList_toList]

/-! ## §2. Cuts. -/

/-- What follows the first `n` bytes; `none` past the end and inside a character. -/
def dropBytes? : Nat → List Char → Option (List Char)
  | 0, cs => some cs
  | _ + 1, [] => none
  | n + 1, c :: cs => if c.utf8Size ≤ n + 1 then dropBytes? (n + 1 - c.utf8Size) cs else none

/-- Splits a text after `n` bytes, unless that is past the end or inside a character; `front`
holds the characters before, the last one first. -/
def splitBytes? (front : List Char) : Nat → List Char → Option (List Char × List Char)
  | 0, cs => some (front.reverse, cs)
  | _ + 1, [] => none
  | n + 1, c :: cs =>
    if c.utf8Size ≤ n + 1 then splitBytes? (c :: front) (n + 1 - c.utf8Size) cs else none

/-- The first `n` bytes; `none` past the end and inside a character. -/
def takeBytes? (n : Nat) (cs : List Char) : Option (List Char) :=
  (splitBytes? [] n cs).map Prod.fst

/-- The characters from byte `start` up to byte `stop`. -/
def slice? (start stop : Nat) (cs : List Char) : Option (List Char) := do
  let before ← takeBytes? stop cs
  dropBytes? start before

/-- The longest run of leading characters that fits into `budget` bytes. -/
def takeWithin : Nat → List Char → List Char
  | _, [] => []
  | budget, c :: cs =>
    if c.utf8Size ≤ budget then c :: takeWithin (budget - c.utf8Size) cs else []

/-- A cut at `n` splits the text into `n` bytes and the rest. -/
theorem dropBytes?_eq_some {n : Nat} {cs rest : List Char} (h : dropBytes? n cs = some rest) :
    ∃ front, cs = front ++ rest ∧ byteSize front = n := by
  induction cs generalizing n with
  | nil =>
    cases n with
    | zero => exact ⟨[], by simpa [dropBytes?] using h, rfl⟩
    | succ n => simp [dropBytes?] at h
  | cons c cs ih =>
    cases n with
    | zero => exact ⟨[], by simpa [dropBytes?] using h, rfl⟩
    | succ n =>
      simp only [dropBytes?] at h
      split at h
      · obtain ⟨front, rfl, hsize⟩ := ih h
        exact ⟨c :: front, rfl, by rw [byteSize_cons, hsize]; omega⟩
      · simp at h

/-- Where a text is split, it can be cut. -/
theorem dropBytes?_append (front rest : List Char) :
    dropBytes? (byteSize front) (front ++ rest) = some rest := by
  induction front with
  | nil => cases rest <;> rfl
  | cons c front ih =>
    have hpos := c.utf8Size_pos
    obtain ⟨n, hn⟩ : ∃ n, byteSize (c :: front) = n + 1 := ⟨byteSize (c :: front) - 1, by
      rw [byteSize_cons]
      omega⟩
    rw [hn, List.cons_append, dropBytes?, if_pos (by rw [byteSize_cons] at hn; omega), ← hn,
      byteSize_cons, Nat.add_sub_cancel_left]
    exact ih

/-- Where a text is split, its parts are told apart. -/
theorem splitBytes?_append (front gap rest : List Char) :
    splitBytes? front (byteSize gap) (gap ++ rest) = some (front.reverse ++ gap, rest) := by
  induction gap generalizing front with
  | nil => cases rest <;> simp [splitBytes?]
  | cons c gap ih =>
    have hpos := c.utf8Size_pos
    obtain ⟨n, hn⟩ : ∃ n, byteSize (c :: gap) = n + 1 := ⟨byteSize (c :: gap) - 1, by
      rw [byteSize_cons]
      omega⟩
    rw [hn, List.cons_append, splitBytes?, if_pos (by rw [byteSize_cons] at hn; omega), ← hn,
      byteSize_cons, Nat.add_sub_cancel_left, ih]
    simp

/-- Parts that are told apart make up the text. -/
theorem splitBytes?_eq_some {front before rest : List Char} {n : Nat} {cs : List Char}
    (h : splitBytes? front n cs = some (before, rest)) :
    ∃ gap, before = front.reverse ++ gap ∧ cs = gap ++ rest ∧ byteSize gap = n := by
  fun_induction splitBytes? front n cs with
  | case1 front cs =>
    cases h
    exact ⟨[], by simp, rfl, rfl⟩
  | case2 => cases h
  | case3 front n c cs hfits ih =>
    obtain ⟨gap, hbefore, hcs, hsize⟩ := ih h
    refine ⟨c :: gap, by simpa using hbefore, by rw [hcs]; rfl, ?_⟩
    rw [byteSize_cons, hsize]
    omega
  | case4 => cases h

/-- What a cut leaves are the first `n` bytes. -/
theorem takeBytes?_eq_some {n : Nat} {cs before : List Char} (h : takeBytes? n cs = some before) :
    ∃ rest, cs = before ++ rest ∧ byteSize before = n := by
  obtain ⟨⟨front, rest⟩, hsplit, rfl⟩ := Option.map_eq_some_iff.1 h
  obtain ⟨gap, rfl, hcs, hsize⟩ := splitBytes?_eq_some hsplit
  exact ⟨rest, hcs, hsize⟩

theorem takeBytes?_append (front rest : List Char) :
    takeBytes? (byteSize front) (front ++ rest) = some front := by
  rw [takeBytes?, splitBytes?_append]
  rfl

/-- The middle of three parts. -/
theorem slice?_append (front middle rest : List Char) :
    slice? (byteSize front) (byteSize (front ++ middle)) (front ++ middle ++ rest) = some middle := by
  unfold slice?
  rw [takeBytes?_append]
  exact dropBytes?_append front middle

end TypeAhead.Text
