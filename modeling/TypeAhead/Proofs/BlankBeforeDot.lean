/-
  TypeAhead.Proofs.BlankBeforeDot — BLANKS BEFORE THE DOT AT THE CARET.

  A text is analysed without the dot at its end, so blanks before that dot are
  blanks at the end of what is analysed.  No token sees them: the fragment starts
  at the same operand, and as an expression it has the same type, with its old
  spellings replaced or without.  But the fragment is a stretch of the text, the
  blanks included, and where it is no expression it is compared with the names of
  types as it stands.  So the bare name of a type is not found behind blanks.

      locate_trailing             the fragment, with the blanks
      compileRetrying_trailing    its type as an expression
      bareType?_of_blank          no name of a type ends in blanks
      analyze_blanks_iff          when blanks before the dot do not matter
-/
import TypeAhead.Analysis
import TypeAhead.Proofs.Formatting
import TypeAhead.Proofs.Respelling

namespace TypeAhead

open Text

open Scan (Later)

variable {blanks : List Char} {text : String}

/-! ## §1. No token among blanks. -/

/-- **No token starts where only blanks are left.** -/
theorem Reaches.start_ne (hne : blanks ≠ []) (hblank : ∀ e ∈ blanks, isBlank e = true)
    {front : List Char} {past : List TokenKind} {c : Cursor} (h : Reaches (front ++ blanks) past c) :
    c.current.start ≠ byteSize front := by
  intro hstart
  obtain ⟨-, -, read, lexeme, hd⟩ := h.split
  -- What is left where the token starts are the blanks, so its first character would be one.
  have hrest : blanks = lexeme ++ c.rest := by
    have hfront := dropBytes?_append front blanks
    rw [hd.text_eq, List.append_assoc, ← hstart, hd.start_eq, dropBytes?_append] at hfront
    exact (Option.some.inj hfront).symm
  cases hc : c.current.isFinish with
  -- The end of the text is behind the blanks, not before them.
  | true =>
    have hkind : c.current.kind = .finish := Token.isFinish_iff.1 hc
    rw [hd.finish_iff.1 hkind, hd.rest_eq hkind] at hrest
    exact hne hrest
  -- A token starts with a character that is no blank.
  | false =>
    obtain ⟨e, tail, htext, he⟩ := h.head hc
    rw [hd.lexeme_eq, String.toList_ofList] at htext
    rw [htext] at hrest
    rw [hblank e (hrest ▸ List.mem_cons_self)] at he
    cases he

/-! ## §2. The fragment. -/

namespace Fragment

/-- In the empty text an operand is open. -/
theorem openAtEnd_empty (parsing : Parsing) : openAtEnd parsing "" = [0] := rfl

/-- Operands are open where tokens start. -/
theorem reaches_of_mem_openAtEnd {parsing : Parsing} {start : Nat}
    (h : start ∈ openAtEnd parsing text) :
    ∃ past c, Reaches text.toList past c ∧ c.current.start = start := by
  unfold openAtEnd at h
  split at h
  · cases h
  · rename_i c hopen
    obtain ⟨past, d, hreached, hstart, -⟩ := (sound_walk parsing hopen).opened start h
    exact ⟨past, d, hreached, hstart⟩

/-- Both fragments are empty, or the second one is the first one with the blanks. -/
def Longer (blanks : List Char) (r r' : Fragment) : Prop :=
  (r.text = "" ∧ r'.text = "") ∨ (r.text ≠ "" ∧ r'.text = r.text ++ String.ofList blanks)

theorem text_ofOpen {front rest : List Char} {start : Nat} (h : byteSize front = start)
    (starts : List Nat) (stoppedBy : Option Fault) :
    (ofOpen (front ++ rest) (start :: starts) stoppedBy).text = String.ofList rest := by
  rw [ofOpen, List.headD_cons, ← h, dropBytes?_append]
  rfl

/-- Nothing is left of an operand that is open at the end. -/
theorem text_ofOpen_end {cs : List Char} {start : Nat} (h : byteSize cs = start)
    (starts : List Nat) (stoppedBy : Option Fault) :
    (ofOpen cs (start :: starts) stoppedBy).text = "" := by
  have htext : (ofOpen (cs ++ []) (start :: starts) stoppedBy).text = String.ofList [] :=
    text_ofOpen h starts stoppedBy
  rwa [List.append_nil] at htext

/-- **With blanks behind the text the fragment starts at the same operand**, and has the blanks at its
end. -/
theorem locate_trailing (hne : blanks ≠ []) (hblank : ∀ e ∈ blanks, isBlank e = true)
    (parsing : Parsing) (text : String) :
    Concur (Later (byteSize text.toList) (byteSize blanks)) (Longer blanks)
      (locate parsing text) (locate parsing (text ++ String.ofList blanks)) := by
  have hopen := agree_first hne hblank text.toList
  have hlong : (text ++ String.ofList blanks).toList = text.toList ++ blanks := by
    rw [String.toList_append, String.toList_ofList]
  rw [← hlong] at hopen
  refine concur_locate (p := trailing (byteSize text.toList) blanks hne hblank) parsing hopen
    fun {stoppedBy stoppedBy'} hstarts _ => ?_
  have hreached : ∀ {start}, start ∈ openAtEnd parsing text →
      ∃ past c, Reaches text.toList past c ∧ c.current.start = start := reaches_of_mem_openAtEnd
  have hreached' : ∀ {start}, start ∈ openAtEnd parsing (text ++ String.ofList blanks) →
      ∃ past c, Reaches (text.toList ++ blanks) past c ∧ c.current.start = start :=
    fun h => hlong ▸ reaches_of_mem_openAtEnd h
  have hempty := openAtEnd_empty parsing
  generalize hheld : openAtEnd parsing text = starts at hstarts hreached
  generalize openAtEnd parsing (text ++ String.ofList blanks) = starts' at hstarts hreached'
  cases hstarts with
  | nil =>
    -- Nothing is open, so both fragments are whole texts; in the empty text something is.
    refine .inr ⟨?_, ?_⟩
    · rw [text_of_nil]
      rintro rfl
      rw [hheld] at hempty
      cases hempty
    · rw [text_of_nil, text_of_nil]
  | @cons a b _ _ hlater =>
    obtain rfl | ⟨rfl, rfl⟩ := hlater
    -- The operand is open at the same offset, where a token of the second text starts too.
    · obtain ⟨past, c, hc, hstart⟩ := hreached List.mem_cons_self
      obtain ⟨past', c', hc', hstart'⟩ := hreached' List.mem_cons_self
      obtain ⟨read, rest, htext, hread⟩ := hc.boundary
      have hhead : byteSize read = b := hread.trans hstart
      have hrest : rest ≠ [] := by
        rintro rfl
        refine hc'.start_ne hne hblank ?_
        rw [hstart', ← hhead, htext, List.append_nil]
      refine .inr ?_
      rw [hlong, htext, List.append_assoc, text_ofOpen hhead, text_ofOpen hhead,
        String.ofList_append]
      exact ⟨fun h => hrest (by simpa using h), rfl⟩
    -- The operand is open at the end of either text.
    · refine .inl ⟨text_ofOpen_end rfl _ _, text_ofOpen_end ?_ _ _⟩
      rw [hlong, byteSize_append]

end Fragment

/-! ## §3. Its type as an expression. -/

namespace Typing.Setting

theorem compile_trailing (hne : blanks ≠ []) (hblank : ∀ e ∈ blanks, isBlank e = true) (s : Setting)
    (text : String) :
    Concur (Later (byteSize text.toList) (byteSize blanks)) Eq (s.compile text)
      (s.compile (text ++ String.ofList blanks)) := by
  have hopen := agree_first hne hblank text.toList
  rw [← String.toList_ofList (l := blanks), ← String.toList_append, String.toList_ofList] at hopen
  exact concur_compile (p := trailing (byteSize text.toList) blanks hne hblank) s hopen

/-- **Blanks behind an expression do not matter**, whether its old spellings are replaced or not. -/
theorem compileRetrying_trailing (hne : blanks ≠ []) (hblank : ∀ e ∈ blanks, isBlank e = true)
    (s : Setting) (retry : Bool) (text : String) :
    Concur (Later (byteSize text.toList) (byteSize blanks)) Eq (s.compileRetrying retry text)
      (s.compileRetrying retry (text ++ String.ofList blanks)) := by
  have hcompile := compile_trailing hne hblank s text
  unfold compileRetrying
  rw [Legacy.replace?_trailing hne hblank]
  generalize s.compile text = o at hcompile
  generalize s.compile (text ++ String.ofList blanks) = q at hcompile
  cases hcompile with
  | ok h => exact .ok h
  | @error failure failure' hfailure =>
    have hfault : failure'.isFault = failure.isFault := by
      cases failure <;> cases failure' <;> first | rfl | exact hfailure.elim
    dsimp only
    rw [hfault]
    split
    -- A second attempt reads the new text, which has the same blanks behind it.
    · cases Legacy.replace? text with
      | none => exact .error hfailure
      | some new =>
        have hnew := compile_trailing hne hblank s new
        dsimp only [Option.map_some]
        generalize s.compile new = o at hnew
        generalize s.compile (new ++ String.ofList blanks) = q at hnew
        cases hnew with
        | ok h => exact .ok h
        | error => exact .error hfailure
    · exact .error hfailure

end Typing.Setting

/-! ## §4. Names of types. -/

theorem isBlank_toLower (c : Char) : isBlank c.toLower = isBlank c := by
  unfold Char.toLower
  split
  · rename_i h
    have hlow : 65 ≤ c.val.toNat := h.1
    have hhigh : c.val.toNat ≤ 90 := h.2
    have hadd : (c.val + ('a'.val - 'A'.val)).toNat = c.val.toNat + 32 := by
      rw [UInt32.toNat_add, show ('a'.val - 'A'.val).toNat = 32 from rfl]
      omega
    simp only [isBlank, Char.toNat, hadd]
    rw [Bool.eq_iff_iff]
    simp only [Bool.or_eq_true, Bool.and_eq_true, decide_eq_true_eq, beq_iff_eq]
    omega
  · rfl

/-- Whether the last character is a blank. -/
def endsBlank (s : String) : Bool := s.toList.getLast?.any isBlank

theorem endsBlank_lower (s : String) : endsBlank (lower s) = endsBlank s := by
  rw [endsBlank, endsBlank, lower, String.toList_ofList, List.getLast?_map]
  cases s.toList.getLast? with
  | none => rfl
  | some c => exact isBlank_toLower c

theorem endsBlank_append (hne : blanks ≠ []) (hblank : ∀ e ∈ blanks, isBlank e = true)
    (text : String) : endsBlank (text ++ String.ofList blanks) = true := by
  rw [endsBlank, String.toList_append, String.toList_ofList, List.getLast?_append_of_ne_nil _ hne,
    List.getLast?_eq_some_getLast hne]
  exact hblank _ (List.getLast_mem hne)

/-- **No bare name of a type has blanks behind it**, unless the type of the context is called so. -/
theorem bareType?_of_blank (hne : blanks ≠ []) (hblank : ∀ e ∈ blanks, isBlank e = true)
    {context : TypeDef} (hcontext : endsBlank context.name = false) (text : String) :
    bareType? context (text ++ String.ofList blanks) = none := by
  have hknown : ∀ t ∈ Known.wellKnown.filterMap fun name => predefinedNamed.lookup name,
      endsBlank t.name = false := by decide +kernel
  refine List.find?_eq_none.2 fun t ht hsame => ?_
  have hname : endsBlank t.name = false := by
    rcases List.mem_append.1 ht with ht | ht
    · exact hknown t ht
    · exact List.mem_singleton.1 ht ▸ hcontext
  have hsame : lower t.name = lower (text ++ String.ofList blanks) := by simpa [sameWord] using hsame
  rw [← endsBlank_lower, hsame, endsBlank_lower, endsBlank_append hne hblank] at hname
  cases hname

/-! ## §5. What a fragment stands for. -/

/-- What a fragment stands for, without the fragment: a type, if any, and whether it is named. -/
def Resolution.meaning (r : Resolution) : Option TypeDef × Bool := (r.type?, r.isTypeName)

/-- A fragment that is an expression stands for the same with blanks behind it.  Another one does if
with them it is the same name of a type, or no name of a type either way. -/
theorem resolve_trailing_iff (hne : blanks ≠ []) (hblank : ∀ e ∈ blanks, isBlank e = true)
    (s : Typing.Setting) (htext : text ≠ "") :
    (s.resolve text).toOption.map Resolution.meaning =
        (s.resolve (text ++ String.ofList blanks)).toOption.map Resolution.meaning ↔
      (∃ t, s.compileRetrying s.parsing.retryLegacy text = .ok t) ∨
        bareType? s.context text = bareType? s.context (text ++ String.ofList blanks) := by
  have hempty : text.isEmpty = false := by simpa using htext
  have hempty' : (text ++ String.ofList blanks).isEmpty = false := by simp [htext]
  have hcompile := Typing.Setting.compileRetrying_trailing hne hblank s s.parsing.retryLegacy text
  simp only [Typing.Setting.resolve, hempty, hempty', Bool.false_eq_true, if_false]
  generalize s.compileRetrying s.parsing.retryLegacy text = o at hcompile
  generalize s.compileRetrying s.parsing.retryLegacy (text ++ String.ofList blanks) = q at hcompile
  -- A text that has a type has it with the blanks too; the other way is for the names of types.
  cases hcompile with
  | @ok t _ h =>
    cases h
    exact ⟨fun _ => .inl ⟨t, rfl⟩, fun _ => rfl⟩
  | error =>
    dsimp only
    cases bareType? s.context text <;>
      cases bareType? s.context (text ++ String.ofList blanks) <;>
      simp [Except.toOption, Resolution.meaning, Resolution.type?, Resolution.isTypeName]

/-! ## §6. The dot. -/

/-- Both analyses fail, or they find the same: a type, and whether it is named. -/
def SameMeaning (a b : Except Failure Analysis) : Prop :=
  a.toOption.map (fun x => x.resolution.meaning) = b.toOption.map fun x => x.resolution.meaning

/-- The dot before the caret is left out. -/
theorem truncate_dot (hsize : (text ++ ".").utf8ByteSize ≤ Limits.sourceBytes) :
    Analysis.truncate (text ++ ".") (text ++ ".").utf8ByteSize = .ok text := by
  have htake : takeBytes? (text ++ ".").utf8ByteSize (text ++ ".").toList = some (text ++ ".").toList := by
    have h := takeBytes?_append (text ++ ".").toList []
    rwa [List.append_nil, byteSize_toList] at h
  have hdot : Analysis.withoutDot (text ++ ".").toList = text.toList := by
    rw [String.toList_append, show ".".toList = ['.'] from rfl, Analysis.withoutDot, if_pos (by simp),
      List.dropLast_concat]
  simp only [Analysis.truncate, if_neg (Nat.not_lt.2 hsize), htake, hdot, String.ofList_toList]

/-- What is analysed is the fragment of the text without the dot. -/
theorem meaning_dot (s : Typing.Setting) (hsize : (text ++ ".").utf8ByteSize ≤ Limits.sourceBytes) :
    ((s.analyze (text ++ ".") (text ++ ".").utf8ByteSize).toOption.map fun x => x.resolution.meaning) =
      (Fragment.locate s.parsing text).toOption.bind fun r =>
        (s.resolve r.text).toOption.map Resolution.meaning := by
  rw [Typing.Setting.analyze, truncate_dot hsize]
  show (Except.toOption (Except.bind (Fragment.locate s.parsing text) _)).map _ = _
  cases Fragment.locate s.parsing text with
  | error => rfl
  | ok r =>
    show (Except.toOption (Except.bind (s.resolve r.text) _)).map _ = (s.resolve r.text).toOption.map _
    cases s.resolve r.text <;> rfl

/-- **When blanks before the dot do not matter.**  With blanks before the dot at the caret an analysis
finds the same, or fails as well, just if the fragment is empty, or is an expression, or if with the
blanks it is the same name of a type as without, or no name of a type either way. -/
theorem analyze_blanks_iff (s : Typing.Setting) (text : String) {blanks : String} (hne : blanks ≠ "")
    (hblank : ∀ e ∈ blanks.toList, isBlank e = true)
    (hsize : (text ++ blanks ++ ".").utf8ByteSize ≤ Limits.sourceBytes) :
    SameMeaning (s.analyze (text ++ ".") (text ++ ".").utf8ByteSize)
        (s.analyze (text ++ blanks ++ ".") (text ++ blanks ++ ".").utf8ByteSize) ↔
      ∀ r, Fragment.locate s.parsing text = .ok r → r.text ≠ "" →
        (∃ t, s.compileRetrying s.parsing.retryLegacy r.text = .ok t) ∨
          bareType? s.context r.text = bareType? s.context (r.text ++ blanks) := by
  have hne : blanks.toList ≠ [] := by simpa using hne
  have hsize' : (text ++ ".").utf8ByteSize ≤ Limits.sourceBytes := by
    simp only [String.utf8ByteSize_append] at hsize ⊢
    omega
  -- The fragment of the longer text is the same one with the blanks, or empty where that is empty.
  have hlocate := Fragment.locate_trailing hne hblank s.parsing text
  rw [String.ofList_toList] at hlocate
  rw [SameMeaning, meaning_dot s hsize', meaning_dot s hsize]
  generalize Fragment.locate s.parsing text = o at hlocate
  generalize Fragment.locate s.parsing (text ++ blanks) = q at hlocate
  cases hlocate with
  | error => exact ⟨fun _ => nofun, fun _ => rfl⟩
  | @ok r r' h =>
    show (s.resolve r.text).toOption.map Resolution.meaning =
      (s.resolve r'.text).toOption.map Resolution.meaning ↔ _
    obtain ⟨hr, hr'⟩ | ⟨hr, hr'⟩ := h
    · rw [hr, hr']
      refine ⟨fun _ r₁ h₁ hnot => ?_, fun _ => rfl⟩
      cases h₁
      exact absurd hr hnot
    · rw [hr', resolve_trailing_iff hne hblank s hr, String.ofList_toList]
      constructor
      · rintro h r₁ h₁ -
        cases h₁
        exact h
      · exact fun h => h r rfl hr

/-- `String` is the name of a type before a dot, and with a blank between them it is not. -/
theorem analyze_blanks_iff_of_typeName :
    " " ≠ "" ∧ (∀ e ∈ " ".toList, isBlank e = true) ∧
      ("String" ++ " " ++ ".").utf8ByteSize ≤ Limits.sourceBytes ∧
      ¬ SameMeaning
        ((⟨.empty, {}, Predefined.stringType⟩ : Typing.Setting).analyze ("String" ++ ".")
          ("String" ++ ".").utf8ByteSize)
        ((⟨.empty, {}, Predefined.stringType⟩ : Typing.Setting).analyze ("String" ++ " " ++ ".")
          ("String" ++ " " ++ ".").utf8ByteSize) := by
  have hne : " " ≠ "" := by decide
  have hblank : ∀ e ∈ " ".toList, isBlank e = true := List.all_eq_true.1 rfl
  have hsize : ("String" ++ " " ++ ".").utf8ByteSize ≤ Limits.sourceBytes := by decide +kernel
  refine ⟨hne, hblank, hsize, fun hsame => ?_⟩
  have h := (analyze_blanks_iff _ "String" hne hblank hsize).1 hsame ⟨0, "String", none⟩ rfl (by decide)
  -- The name of a type is no expression, and with the blank it is not even a name.
  rcases h with ⟨t, ht⟩ | hname
  · have hfails : ((⟨.empty, {}, Predefined.stringType⟩ : Typing.Setting).compileRetrying true
        "String").toOption = none := by rfl
    rw [show (⟨.empty, {}, Predefined.stringType⟩ : Typing.Setting).compileRetrying true "String" = .ok t
      from ht] at hfails
    cases hfails
  · have hsome : (bareType? Predefined.stringType "String").isSome = true := by decide +kernel
    have hnone : bareType? Predefined.stringType ("String" ++ " ") = none :=
      bareType?_of_blank (show [' '] ≠ [] from nofun) (List.forall_mem_singleton.2 rfl)
        (by decide +kernel) "String"
    rw [show bareType? Predefined.stringType "String" = _ from hname, hnone] at hsome
    cases hsome

end TypeAhead
