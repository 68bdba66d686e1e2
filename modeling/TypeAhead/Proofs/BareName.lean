/-
  TypeAhead.Proofs.BareName — THE BARE NAME OF A TYPE IS NO VALUE.

  A single word that names a type does not have a type as an expression: whatever
  the registry holds, a keyword wants a parenthesis after it, a type a dot or a
  parenthesis, and a method its arguments.  The same goes for what an old spelling
  is replaced by.  So such a word is resolved to the type that it names, unless it
  is one of the words for values or names a member of the context.

      fails_word          a word by itself
      fails_compile       and so the text that consists of it
      resolve_bareName    what it is resolved to
-/
import TypeAhead.Proofs.Token.Ahead
import TypeAhead.Proofs.Types.Loaded
import TypeAhead.Proofs.Typing.Course
import TypeAhead.Resolution

namespace TypeAhead

open Walker

namespace Typing

/-! ## §1. Rules that fail. -/

section

variable {α β : Type} {x : Typer α} {f : α → Typer β} {w : ScopedWalk}

/-- Started at `w`, the rule fails. -/
abbrev Fails (x : Typer α) (w : ScopedWalk) : Prop :=
  Ensures x w (fun _ => True) (fun _ _ => False) fun _ _ => True

/-- It suffices that the first of two rules fails. -/
theorem fails_bind (hx : Fails x w) : Fails (x >>= f) w := hx.bind fun _ _ h => h.elim

/-- What follows a look has to fail with what was seen. -/
theorem fails_look {g : Cursor → α} (h : Fails (f (g w.cursor)) w) : Fails (look g >>= f) w :=
  .lookThen trivial h

theorem fails_fail (cause : Cause) : Fails (fail cause : Typer α) w := .fail trivial trivial

/-- What follows has to fail behind the next token. -/
theorem fails_advance {c : Cursor} {f : Unit → Typer β} (hnext : w.cursor.next = .ok c)
    (h : Fails (f ()) (w.moved c)) : Fails (advance >>= f) w := by
  have hadvance : Ensures (advance : Typer Unit) w (fun _ => True) (fun _ v => v = w.moved c)
      fun _ _ => True := by
    refine .advance trivial (fun d hd => ⟨trivial, ?_⟩) fun _ _ => trivial
    cases hnext.symm.trans hd
    rfl
  refine hadvance.bind ?_
  rintro _ _ rfl
  exact h

/-- A nested rule fails if it does so one level deeper. -/
theorem fails_nested (h : Fails x w.deeper) : Fails (nested x) w :=
  .nested trivial (fun _ => trivial) fun _ => h.imp (fun _ _ hv => hv.elim) fun _ _ _ => ⟨trivial, trivial⟩

/-- A token of another kind stands there. -/
theorem fails_expect {kind : TokenKind} {cause : Cause} (h : w.cursor.current.kind ≠ kind) :
    Fails (expect kind cause : Typer Unit) w := by
  refine .demandThen trivial (fun ht => ?_) fun _ => trivial
  exact absurd (by simpa [Cursor.isKind] using ht) h

end

/-! ## §2. One word and nothing after it. -/

/-- The cursor stands on the given word, and nothing comes after it. -/
structure OnlyWord (name : String) (c d : Cursor) : Prop where
  kind : c.current.kind = .identifier
  text : plainName c.current.text = name
  next : c.next = .ok d
  finish : d.current.kind = .finish

/-- A word that no member of `it` could be meant by: it names a type, or there is no field and no
property of that name. -/
def NoField (s : Setting) (name : String) : Prop :=
  (Rule.wordType? s name).isSome = true ∨
    s.registry.findMember? s.context name .ofInstance s.parsing.ignoreCase = none

/-- The words for values. -/
def valueWords : List String := ["it", "true", "false", "null"]

namespace Rule

variable {s : Setting} {call : Rule → Typer Operand} {name : String} {w : ScopedWalk} {d : Cursor}

/-- At the end of the text there is no parenthesis. -/
theorem fails_argumentList (h : w.cursor.current.kind = .finish) : Fails (argumentList call) w :=
  fails_bind (fails_expect (h ▸ by decide))

/-- No more words of a qualified name follow. -/
theorem qualifiedType?_of_onlyWord {c : Cursor} (h : OnlyWord name c d) (budget : Nat) :
    qualifiedType? s name c (budget + 1) = .ok none := by
  simp [qualifiedType?, h.next, h.finish]

/-- The walk is past the name of a type, or where it was and on no name of a type. -/
theorem ensures_typeName (h : OnlyWord name w.cursor d) :
    Ensures (typeName s) w (fun _ => True)
      (fun found v => match found with
        | some _ => v.cursor.current.kind = .finish
        | none => v = w ∧ wordType? s name = none)
      fun _ _ => True := by
  refine .lookThen trivial ?_
  simp only [id, h.text]
  split
  -- The word is a name by itself: it is gone past, and nothing comes behind it.
  · have hadvance : Ensures (advance : Typer Unit) w (fun _ => True)
        (fun _ v => v.cursor.current.kind = .finish) fun _ _ => True := by
      refine .advance trivial (fun c hc => ⟨trivial, ?_⟩) fun _ _ => trivial
      cases h.next.symm.trans hc
      exact h.finish
    exact hadvance.bind fun _ _ hv => .pure trivial hv
  -- A qualified name would need a dot.
  · rename_i hnone
    split
    · rw [qualifiedType?_of_onlyWord h]
      exact .pureThen trivial (.pure trivial ⟨rfl, hnone⟩)
    · exact .pure trivial ⟨rfl, hnone⟩

/-- At the end of the text there is nothing that may follow the name of a type. -/
theorem fails_typeAccess (t : TypeDef) (position : Nat) (h : w.cursor.current.kind = .finish) :
    Fails (typeAccess s call t position) w := by
  refine fails_look ?_
  rw [h]
  exact fails_fail _

/-- A method needs its arguments. -/
theorem fails_memberAccess (h : OnlyWord name w.cursor d) (it : TypeDef)
    (hnone : s.registry.findMember? it name .ofInstance s.parsing.ignoreCase = none) :
    Fails (memberAccess s call it .ofInstance) w := by
  refine .demandThen trivial (fun _ => ?_) fun _ => trivial
  refine fails_look (fails_advance h.next (fails_look ?_))
  simp only [h.finish, h.text, hnone]
  exact .failAt trivial trivial

/-- The word is the name of no type that stands by itself, and of no field. -/
theorem fails_name (h : OnlyWord name w.cursor d) (hfield : NoField s name) :
    Fails (Rule.name s call s.context) w := by
  refine fails_look ((ensures_typeName h).bind fun found v hv => ?_)
  cases found with
  -- The name of a type must be followed by something, and nothing follows.
  | some t => exact fails_typeAccess t _ hv
  | none =>
    obtain ⟨rfl, htype⟩ := hv
    have hnone := hfield.resolve_left (by simp [htype])
    -- The answer does not matter: a member fails as much as what is none.
    have hmember : Ensures (hasMember s s.context name) v (fun _ => True) (fun _ u => u = v)
        fun _ _ => True := by
      unfold hasMember
      dsimp only
      split
      · exact .pure trivial rfl
      · exact .lookThen trivial (.ofExceptThen trivial (fun _ _ => trivial) fun _ _ => .pure trivial rfl)
    simp only [h.text]
    refine hmember.bind ?_
    rintro found _ rfl
    cases found with
    | true => exact fails_memberAccess h _ hnone
    | false => exact fails_bind (fails_fail _)

/-- **A word by itself is no value**, unless it is a word for one or names a member. -/
theorem fails_word (h : OnlyWord name w.cursor d) (hheld : w.held = [])
    (hvalue : Text.lower name ∉ valueWords) (hfield : NoField s name) : Fails (word s call) w := by
  have hscopes : Ensures scopes w (fun _ => True) (fun a v => a = [] ∧ v = w) fun _ _ => True :=
    .move trivial trivial ⟨hheld, rfl⟩
  refine hscopes.bind ?_
  rintro _ v ⟨rfl, rfl⟩
  -- Words of values are excluded; every other keyword asks for something behind it.
  refine fails_look ?_
  simp only [h.text]
  split
  · rename_i hword
    simp [hword, valueWords] at hvalue
  · exact fails_fail _
  · exact fails_fail _
  · rename_i hword
    simp [hword, valueWords] at hvalue
  · rename_i hword
    simp [hword, valueWords] at hvalue
  · rename_i hword
    simp [hword, valueWords] at hvalue
  · exact fails_look (fails_advance h.next (fails_bind (fails_argumentList h.finish)))
  · exact fails_look (fails_advance h.next (fails_bind (fails_argumentList h.finish)))
  · refine fails_look (fails_advance h.next (fails_look ?_))
    simp only [Cursor.isAny, h.finish]
    exact fails_bind (fails_fail _)
  · exact fails_name h hfield

/-- No rule makes more of a word by itself than `word` does: each calls another one there first. -/
theorem fails_body (h : OnlyWord name w.cursor d) (hheld : w.held = [])
    (hnot : w.cursor.isWord "not" = false) (hvalue : Text.lower name ∉ valueWords)
    (hfield : NoField s name) (r : Rule) (hcall : ∀ r, Fails (call r) w ∧ Fails (call r) w.deeper) :
    Fails (body s call r) w := by
  cases r with
  -- Down to the operand each rule starts with the next one.
  | conditional => exact fails_nested (fails_look (fails_bind (hcall coalescing).2))
  | coalescing => exact fails_bind (hcall projection).1
  | projection => exact fails_bind (hcall disjunction).1
  | disjunction => exact fails_bind (hcall conjunction).1
  | conjunction => exact fails_bind (hcall containment).1
  | containment => exact fails_bind (hcall bitwise).1
  | bitwise => exact fails_bind (hcall comparison).1
  | comparison => exact fails_bind (hcall shift).1
  | shift => exact fails_bind (hcall sum).1
  | sum => exact fails_bind (hcall product).1
  | product => exact fails_bind (hcall unary).1
  | unary =>
    -- A negation would be read as an operator; no other word is.
    refine fails_nested (fails_look (fails_look ?_))
    have hsign : w.deeper.cursor.isAny [.minus, .exclamation] = false := by
      simp [Cursor.isAny, Walk.deeper, h.kind]
    rw [hsign, show w.deeper.cursor.isWord "not" = false from hnot]
    exact (hcall operand).2
  | operand =>
    refine fails_bind (fails_look ?_)
    rw [h.kind]
    exact fails_word h hheld hvalue hfield

/-- Every rule fails on such a text, by induction on its budget. -/
theorem fails_run (h : OnlyWord name w.cursor d) (hheld : w.held = [])
    (hnot : w.cursor.isWord "not" = false) (hvalue : Text.lower name ∉ valueWords)
    (hfield : NoField s name) (budget : Nat) (r : Rule) : Fails (run s budget r) w := by
  induction budget generalizing r w with
  | zero => exact fails_fail _
  | succ budget ih =>
    refine fails_body h hheld hnot hvalue hfield r fun r => ⟨ih h hheld hnot r, ?_⟩
    exact ih (w := w.deeper) h hheld hnot r

end Rule

/-! ## §3. Texts of one word. -/

/-- The text consists of letters, digits and underscores, and is read as one name. -/
def SingleName (text : String) : Prop :=
  (∀ c ∈ text.toList, Text.isWordChar c = true) ∧
    ∃ t e, tokenize text = .ok [t, e] ∧ t.kind = .identifier

section

variable {text : String} {cs : List Char}

/-- There are no blanks in a word. -/
theorem nil_of_blank (hword : ∀ c ∈ cs, Text.isWordChar c = true)
    (hblank : ∀ c ∈ cs, Text.isBlank c = true) : cs = [] := by
  cases cs with
  | nil => rfl
  | cons c cs =>
    have hseparates := Scan.separates_of_blank (hblank c List.mem_cons_self)
    have := Scan.isWordChar_of_separates hseparates
    rw [hword c List.mem_cons_self] at this
    cases this

/-- A word is its own name. -/
theorem plainName_of_word (hword : ∀ c ∈ text.toList, Text.isWordChar c = true) : plainName text = text := by
  unfold plainName
  split
  · rename_i htext
    have hat : Text.isWordChar '@' = true := hword '@' (by simp [htext])
    exact absurd hat (by decide)
  · rfl

/-- The tokens of such a text are the word and the end. -/
theorem onlyWord_of_singleName (h : SingleName text) : ∃ c d, Cursor.open? text.toList = .ok c ∧
    OnlyWord text c d ∧ c.current.text = text ∧ tokenize text = .ok [c.current, d.current] := by
  obtain ⟨hword, t, e, htokens, hkind⟩ := h
  obtain ⟨c, ts, hopen, hts, hafter⟩ := after_of_tokenize htokens
  cases hts
  obtain _ | ⟨hc, hnext, ⟨hd⟩⟩ := hafter
  rename_i d
  have hread := (Cursor.read_eq_ok hopen).2.2
  rw [Cursor.next_of_not_finish hc] at hnext
  have hreadNext := (Cursor.read_eq_ok hnext).2.2
  have hd : d.current.kind = .finish := eq_of_beq hd
  -- Nothing is before the word, and nothing after it.
  have htext : c.current.text = text := by
    cases Scan.token_splits hread with
    | finish hfinish => exact absurd (hkind.symm.trans hfinish) (by decide)
    | lexeme blanks lexeme _ hcs _ htext hoffset =>
      -- Blanks before the word would be characters of the text that no word has.
      have hblanks : blanks = [] := by
        have htake : text.toList.takeWhile Text.isBlank = [] :=
          nil_of_blank (fun e he => hword e (List.takeWhile_subset _ he)) Scan.mem_takeWhile
        have hstart := Scan.start_of_token hread
        rw [htake] at hstart
        refine Classical.byContradiction fun hne => ?_
        have := Text.byteSize_pos hne
        simp only [Text.byteSize_nil] at hstart
        omega
      rw [hcs] at hword
      -- The end of the text is the next token, so that only blanks are left, of which there are none.
      have hrest : c.rest = [] := by
        cases Scan.token_splits hreadNext with
        | finish _ hblank =>
          exact nil_of_blank (fun e he => hword e (by simp [he])) hblank
        | lexeme _ _ hne => exact absurd hd hne
      rw [hblanks, hrest, List.append_nil, List.nil_append] at hcs
      rw [htext, ← hcs, String.ofList_toList]
  rw [← Cursor.next_of_not_finish hc] at hnext
  exact ⟨c, d, hopen, ⟨hkind, by rw [htext, plainName_of_word hword], hnext, hd⟩, htext, htokens⟩

end

/-- **A single name has no type as an expression**, unless it is a word for a value or names a
member. -/
theorem fails_compile {s : Setting} {text : String} (h : SingleName text)
    (hvalue : Text.lower text ∉ valueWords) (hfield : NoField s text) :
    ∃ failure, s.compile text = .error failure := by
  obtain ⟨c, d, hopen, hword, -⟩ := onlyWord_of_singleName h
  have hnot : c.isWord "not" = false := Cursor.isWord_of_open hopen (by decide)
  have hrun : Fails (Rule.run s Rule.budget .conditional) ⟨c, 0, []⟩ :=
    Rule.fails_run hword rfl hnot hvalue hfield _ _
  unfold Setting.compile
  rw [hopen]
  show ∃ failure, s.typeOf c = .error failure
  unfold Setting.typeOf
  cases hrule : (Rule.run s Rule.budget .conditional).run ⟨c, 0, []⟩ with
  | ok a v => exact (hrun.ok hrule).elim
  | error failure v => exact ⟨failure, rfl⟩

/-! ## §4. Names of predefined types. -/

/-- A keyword names a type, whatever the registry holds. -/
theorem isSome_wordType?_of_keyword (s : Setting) {name full : String}
    (h : Known.ofKeyword? name = some full) : (Rule.wordType? s name).isSome = true := by
  obtain ⟨t, -, hget⟩ := Registry.exists_predefined (r := s.registry) (Registry.isPredefined_of_keyword h)
  simp [Rule.wordType?, h, hget]

/-- So does the name of a predefined type. -/
theorem isSome_wordType?_of_predefined (s : Setting) {t : TypeDef} (h : t ∈ predefined) :
    (Rule.wordType? s t.name).isSome = true := by
  unfold Rule.wordType?
  split
  · rfl
  · unfold Registry.findAccessible? Registry.accessible
    refine List.find?_isSome.2 ⟨t, ?_, by simp⟩
    exact List.mem_append_left _ (List.mem_append_left _ h)

/-! ## §5. Old spellings. -/

/-- What is put for an old spelling names a well-known type. -/
theorem names_of_keywords : ∀ k ∈ Legacy.keywords,
    (Known.ofKeyword? k.2).isSome = true ∨ ∃ t ∈ predefined, t.name = k.2 := by
  decide +kernel

/-- What an old spelling is replaced by names a type, whatever the registry holds. -/
theorem isSome_wordType?_of_replaced (s : Setting) {k : String × String} (h : k ∈ Legacy.keywords) :
    (Rule.wordType? s k.2).isSome = true := by
  rcases names_of_keywords k h with hkeyword | ⟨t, ht, hname⟩
  · obtain ⟨full, hfull⟩ := Option.isSome_iff_exists.1 hkeyword
    exact isSome_wordType?_of_keyword s hfull
  · exact hname ▸ isSome_wordType?_of_predefined s ht

/-- A word that is read as an identifier is a text of one name. -/
theorem singleName_of_kinds {text : String} (hword : text.toList.all Text.isWordChar = true)
    (h : (tokenize text).toOption.map (List.map Token.kind) = some [.identifier, .finish]) :
    SingleName text := by
  refine ⟨List.all_eq_true.1 hword, ?_⟩
  cases htokens : tokenize text with
  | error fault =>
    rw [htokens] at h
    cases h
  | ok tokens =>
    rw [htokens] at h
    obtain ⟨t, ts, rfl, ht, hts⟩ := List.map_eq_cons_iff.1 (Option.some.inj h)
    obtain ⟨e, es, rfl, -, hes⟩ := List.map_eq_cons_iff.1 hts
    cases List.map_eq_nil_iff.1 hes
    exact ⟨t, e, rfl, ht⟩

/-- It is a single name, and no word for a value. -/
theorem singleName_of_replaced {k : String × String} (h : k ∈ Legacy.keywords) :
    SingleName k.2 ∧ Text.lower k.2 ∉ valueWords := by
  have hall : ∀ k ∈ Legacy.keywords, k.2.toList.all Text.isWordChar = true ∧
      (tokenize k.2).toOption.map (List.map Token.kind) = some [.identifier, .finish] ∧
      Text.lower k.2 ∉ valueWords := by decide +kernel
  obtain ⟨hword, hkinds, hvalue⟩ := hall k h
  exact ⟨singleName_of_kinds hword hkinds, hvalue⟩

/-- An old spelling by itself is replaced by the new one. -/
theorem replace?_keywords : ∀ k ∈ Legacy.keywords, Legacy.replace? k.1 = some k.2 := by
  decide +kernel

/-- Only a name that is an old spelling is replaced. -/
theorem mem_keywords_of_replace? {text new : String} (h : SingleName text)
    (hnew : Legacy.replace? text = some new) : ∃ k ∈ Legacy.keywords, k.2 = new := by
  obtain ⟨c, d, -, hword, htext, htokens⟩ := onlyWord_of_singleName h
  have hedits : Legacy.edits [c.current, d.current] =
      ((Legacy.keywords.lookup text).map fun keyword => (c.current, keyword)).toList := by
    have hfirst : Legacy.edit? none c.current =
        (Legacy.keywords.lookup text).map fun keyword => (c.current, keyword) := by
      simp [Legacy.edit?, hword.kind, htext]
    have hsecond : Legacy.edit? (some c.current.kind) d.current = none := by
      simp [Legacy.edit?, hword.finish]
    simp only [Legacy.edits, List.map_cons, List.zip_cons_cons, List.filterMap_cons, hfirst, hsecond]
    cases Legacy.keywords.lookup text <;> rfl
  cases hlookup : Legacy.keywords.lookup text with
  | none =>
    simp [Legacy.replace?, htokens, hedits, hlookup] at hnew
  | some keyword =>
    have hmem := Registry.mem_of_lookup hlookup
    have hreplaced : Legacy.replace? text = some keyword := replace?_keywords (text, keyword) hmem
    exact ⟨(text, keyword), hmem, Option.some.inj (hreplaced.symm.trans hnew)⟩

/-- Nor has what it is replaced by a type, if it is an old spelling. -/
theorem fails_compileRetrying {s : Setting} {text : String} (retry : Bool) (h : SingleName text)
    (hvalue : Text.lower text ∉ valueWords) (hfield : NoField s text) :
    ∃ failure, s.compileRetrying retry text = .error failure := by
  obtain ⟨failure, hfailure⟩ := fails_compile h hvalue hfield
  refine ⟨failure, ?_⟩
  simp only [Setting.compileRetrying, hfailure]
  split
  · cases hnew : Legacy.replace? text with
    | none => rfl
    | some new =>
      obtain ⟨k, hk, rfl⟩ := mem_keywords_of_replace? h hnew
      obtain ⟨hname, hlower⟩ := singleName_of_replaced hk
      obtain ⟨failure', hfailure'⟩ :=
        fails_compile hname hlower (.inl (isSome_wordType?_of_replaced s hk))
      simp [hfailure']
  · rfl

end Typing

/-! ## §6. What a bare name stands for. -/

/-- No field and no property that an instance of the context has goes by the name. -/
def NoOwnField (s : Typing.Setting) (name : String) : Prop :=
  ∀ owner ∈ s.registry.lookupChain s.context, ∀ m ∈ owner.fields ++ owner.properties,
    m.isStatic = false → Text.sameName s.parsing.ignoreCase m.name name = false

/-- The context has no such member, so neither has any of its bases. -/
theorem findMember?_of_noOwnField {s : Typing.Setting} {name : String} (h : NoOwnField s name) :
    s.registry.findMember? s.context name .ofInstance s.parsing.ignoreCase = none := by
  unfold Registry.findMember?
  refine List.findSome?_eq_none_iff.2 fun owner howner => ?_
  have hnone : ∀ members, (∀ m ∈ members, m ∈ owner.fields ++ owner.properties) →
      DataMember.find? members name .ofInstance s.parsing.ignoreCase = none := by
    intro members hmembers
    refine List.find?_eq_none.2 fun m hm => ?_
    have := h owner howner m (hmembers m hm)
    cases hstatic : m.isStatic <;> simp_all [Binding.admits]
  unfold TypeDef.member?
  rw [hnone owner.fields fun m hm => List.mem_append_left _ hm,
    hnone owner.properties fun m hm => List.mem_append_right _ hm]
  rfl

/-- The first well-known type of the name, or else the type of the context. -/
theorem bareType?_eq {context : TypeDef} {name : String}
    (h : ∃ t ∈ bareTypes context, Text.sameWord t.name name = true) :
    bareType? context name = some
      (((Known.wellKnown.filterMap fun known => predefinedNamed.lookup known).find? fun t =>
        Text.sameWord t.name name).getD context) := by
  unfold bareType? bareTypes at *
  rw [List.find?_append]
  cases hfound : (Known.wellKnown.filterMap fun known => predefinedNamed.lookup known).find? fun t =>
      Text.sameWord t.name name with
  | some t => rfl
  | none =>
    obtain ⟨t, ht, hname⟩ := h
    rcases List.mem_append.1 ht with ht | ht
    · exact absurd hname (List.find?_eq_none.1 hfound t ht)
    · cases List.mem_singleton.1 ht
      simp [hname]

/-- **The bare name of a type stands for the type.**  A single name that is that of a well-known type
or of the context's type, whatever its case, stands for the first of them, if it is no word for a
value and no field or property of the context goes by it. -/
theorem resolve_bareName {s : Typing.Setting} {name : String} (h : Typing.SingleName name)
    (hknown : ∃ t ∈ bareTypes s.context, Text.sameWord t.name name = true)
    (hvalue : Text.lower name ∉ Typing.valueWords) (hfield : NoOwnField s name) :
    s.resolve name = .ok (.typeName
      (((Known.wellKnown.filterMap fun known => predefinedNamed.lookup known).find? fun t =>
        Text.sameWord t.name name).getD s.context)) := by
  have hempty : name.isEmpty = false := by
    obtain ⟨-, t, e, htokens, hkind⟩ := h
    cases hempty : name.isEmpty with
    | false => rfl
    | true =>
      obtain rfl : name = "" := by simpa using hempty
      cases htokens
  obtain ⟨failure, hfailure⟩ := Typing.fails_compileRetrying s.parsing.retryLegacy h hvalue
    (.inr (findMember?_of_noOwnField hfield))
  unfold Typing.Setting.resolve
  rw [hempty, hfailure, bareType?_eq hknown]
  rfl

/-- An old spelling, which is tried again as `DateTime` and still has no type. -/
theorem resolve_bareName_of_oldSpelling :
    (⟨.empty, {}, Predefined.stringType⟩ : Typing.Setting).resolve "datetime" =
      .ok (.typeName Predefined.dateTimeType) := by
  have hname : Typing.SingleName "datetime" :=
    Typing.singleName_of_kinds (by decide +kernel) (by decide +kernel)
  have hknown : ∃ t ∈ bareTypes Predefined.stringType, Text.sameWord t.name "datetime" = true :=
    ⟨Predefined.dateTimeType, by decide +kernel, by decide +kernel⟩
  have hfield : NoOwnField ⟨.empty, {}, Predefined.stringType⟩ "datetime" := by
    unfold NoOwnField
    decide +kernel
  exact (resolve_bareName hname hknown (by decide) hfield).trans (by rfl)

end TypeAhead
