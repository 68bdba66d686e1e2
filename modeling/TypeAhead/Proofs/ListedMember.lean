/-
  TypeAhead.Proofs.ListedMember — A MEMBER THAT IS LISTED MAY BE TYPED.

  After a dot a completion lists the members of the type of what stands before it.
  With the name of one of them behind the dot the fragment is the same one with the
  member after it.  If the fragment is one operand, it has the type of the member then;
  and so has the name of a type, as an expression spells it, with one of its static
  members.  Old spellings in it are replaced as they were before.

      tokenize_member        the tokens of a text with a member after it
      replace?_member        its old spellings
      resolve_member         what the fragment stands for with a member
      analyze_listed         a member that is listed is analysed
-/
import TypeAhead.Proofs.CompletionList
import TypeAhead.Proofs.Respelling
import TypeAhead.Proofs.Types.Loaded
import TypeAhead.Proofs.Typing.BeforeMember

namespace TypeAhead

open Text

variable {text word : String} {tokens : List Token}

/-! ## §1. Tokens before a member. -/

namespace Fragment

/-- From a token of a text on, the text is read to its end if all tokens ahead are. -/
theorem readable_of_after {cs : List Char} {past : List TokenKind} {c : Cursor} {ts : List Token}
    (hc : Reaches cs past c) (h : After c ts) : Readable cs := by
  induction h generalizing past with
  | finish hend => exact ⟨past, _, hc, hend⟩
  | next hfinish hnext _ ih => exact ih (hc.next hfinish hnext)

/-- A text whose tokens can be read can be read on. -/
theorem readable_of_tokenize (h : tokenize text = .ok tokens) : Readable text.toList := by
  obtain ⟨c, ts, hopen, -, hafter⟩ := after_of_tokenize h
  exact readable_of_after (.first hopen) hafter

/-- **A text can be read to its end if its fragment can.** -/
theorem readable_of_locate {parsing : Parsing} {r : Fragment} (h : locate parsing text = .ok r)
    (hr : Readable r.text.toList) : Readable text.toList := by
  obtain ⟨past, e, he, hend⟩ := hr
  obtain ⟨past', d, hd, hkind⟩ := reaches_of_fragment h he
  refine ⟨past', d, hd, ?_⟩
  rw [AtEnd, Token.isFinish, hkind]
  exact hend

/-- The tokens of a member: a dot, a name and the end of the text. -/
def IsMember (ts : List Token) : Prop := ts.map Token.kind = [.dot, .identifier, .finish]

/-- What is ahead of a token is ahead of it before a member as well, and the member after that. -/
theorem after_member {cs : List Char} {c d : Cursor} {ts : List Token} (hmore : Precedes cs ('.' :: word.toList))
    (hword : ReadAfterDot word) (h : After c ts) (halike : Alike cs ('.' :: word.toList) 0 c d) :
    ∃ front last member us, c.current :: ts = front ++ [last] ∧ last.kind = .finish ∧
      After d us ∧ d.current :: us = front ++ member ∧ IsMember member := by
  -- Along the tokens of the shorter text, to its end.
  induction h generalizing d with
  | finish hc => cases (halike.finish hmore.ne_nil).symm.trans hc
  | @next c c' ts hc hnext h ih =>
    have hcurrent : d.current = c.current := by
      show (⟨d.current.kind, d.current.text, d.current.start⟩ : Token) = c.current
      rw [halike.kind_eq, halike.text_eq, halike.start_eq]
      rfl
    have hd : d.current.isFinish = false := hcurrent ▸ hc
    obtain ⟨d', hd', -, -, halike' | ⟨hover, hfirst⟩⟩ := hmore.next halike hnext
    · obtain ⟨front, last, member, us, hts, hlast, hafter, hus, hmember⟩ := ih halike'
      exact ⟨c.current :: front, last, member, _, congrArg _ hts, hlast, .next hd hd' hafter,
        by rw [hcurrent, hus]; rfl, hmember⟩
    -- There the longer one goes on with the dot and the name, which are read from the edge.
    · cases h with
      | next hc' => cases hc'.symm.trans hover
      | finish =>
        obtain ⟨hdot, e, f, he, hname, -, hf, hend⟩ := Typing.next_of_onFirst hword hfirst
        have hafter : After d [d'.current, e.current, f.current] :=
          .next hd hd' (.next (by rw [Token.isFinish, hdot]; rfl) he
            (.next (by rw [Token.isFinish, hname]; rfl) hf (.finish hend)))
        have hlast : c'.current.kind = .finish := Token.isFinish_iff.1 hover
        have hfinish : f.current.kind = .finish := Token.isFinish_iff.1 hend
        have hmember : IsMember [d'.current, e.current, f.current] := by simp [IsMember, hdot, hname, hfinish]
        exact ⟨[c.current], _, _, _, rfl, hlast, hafter, by rw [hcurrent]; rfl, hmember⟩

/-- **The tokens of a text that is not blank stay as they are before a member.** -/
theorem tokenize_member (hword : ReadAfterDot word) (hlast : text.toList.getLast? ≠ some '?')
    (h : tokenize text = .ok tokens) (hfirst : ∀ t ∈ tokens.head?, t.kind ≠ .finish) :
    ∃ front last member, tokens = front ++ [last] ∧ last.kind = .finish ∧
      tokenize (text ++ "." ++ word) = .ok (front ++ member) ∧ IsMember member := by
  obtain ⟨c, ts, hopen, rfl, hafter⟩ := after_of_tokenize h
  have hc : c.current.isFinish = false := by simpa [Token.isFinish] using hfirst c.current rfl
  have hmore : Precedes text.toList ('.' :: word.toList) := precedes_dot hword (rest_ne_nil_of_question hlast)
  have hlist : text.toList ++ '.' :: word.toList = (text ++ "." ++ word).toList := by simp
  obtain ⟨d, hopen', halike, -, -⟩ := hmore.open_longer hopen hc
  obtain ⟨front, last, member, us, hts, hend, hafter', hus, hmember⟩ := after_member hmore hword hafter halike
  rw [hlist] at hopen'
  exact ⟨front, last, member, hts, hend, hus ▸ tokenize_of_after hopen' hafter', hmember⟩

end Fragment

/-! ## §2. Old spellings before a member. -/

namespace Legacy

open Fragment

variable {spelled : String}

/-- Nothing of a member is replaced. -/
theorem editsFrom_member {member : List Token} (h : IsMember member) (previous : Option TokenKind)
    (ts : List Token) : editsFrom previous (ts ++ member) = editsFrom previous ts := by
  induction ts generalizing previous with
  | nil =>
    obtain ⟨dot, _, rfl, hdot, h⟩ := List.map_eq_cons_iff.1 h
    obtain ⟨name, _, rfl, hname, h⟩ := List.map_eq_cons_iff.1 h
    obtain ⟨finish, _, rfl, hfinish, h⟩ := List.map_eq_cons_iff.1 h
    obtain rfl := List.map_eq_nil_iff.1 h
    simp [editsFrom, edit?, hdot, hfinish]
  | cons t ts ih => rw [List.cons_append, editsFrom, editsFrom, ih]

/-- A text in which something is replaced is not blank. -/
theorem head_of_edits (htokens : tokenize text = .ok tokens) (hedits : edits tokens ≠ []) :
    ∀ t ∈ tokens.head?, t.kind ≠ .finish := by
  intro t ht hfinish
  obtain ⟨c, ts, -, rfl, hafter⟩ := after_of_tokenize htokens
  obtain rfl : c.current = t := Option.some.inj ht
  cases hafter with
  | finish =>
    apply hedits
    rw [edits_eq, editsFrom, edit?_of_kind (by simp [hfinish])]
    rfl
  | next hc => simp [Token.isFinish, hfinish] at hc

/-- **Before a member the same is replaced.** -/
theorem replace?_member (hword : ReadAfterDot word) (hlast : text.toList.getLast? ≠ some '?')
    (h : replace? text = some spelled) : replace? (text ++ "." ++ word) = some (spelled ++ "." ++ word) := by
  obtain ⟨tokens, htokens, hedits, rfl⟩ := replace?_eq_some_iff.1 h
  obtain ⟨front, last, member, rfl, hend, htokens', hmember⟩ :=
    tokenize_member hword hlast htokens (head_of_edits htokens hedits)
  have hsame : edits (front ++ member) = edits (front ++ [last]) := by
    rw [edits_eq, edits_eq, editsFrom_member hmember, editsFrom_concat none front (by simp [hend])]
  refine replace?_eq_some_iff.2 ⟨_, htokens', hsame ▸ hedits, ?_⟩
  rw [hsame, String.append_assoc, String.toList_append, text_append (fits_edits htokens), String.append_assoc,
    String.ofList_toList]

/-- What ends in no question mark does not do so after its old spellings are replaced. -/
theorem getLast?_text_of_fits {offset : Nat} {rest : List Char} {es : List Edit} (h : Fits offset rest es)
    (hwords : ∀ e ∈ es, ∃ c, e.2.toList.getLast? = some c ∧ c ≠ '?') {written : String}
    (hlast : (written.toList ++ rest).getLast? ≠ some '?') :
    (es.foldl Draft.apply ⟨written, rest, offset⟩).text.toList.getLast? ≠ some '?' := by
  induction h generalizing written with
  | nil => simpa [Draft.text] using hlast
  | @cons offset gap rest e es hstart _ ih =>
    rw [List.foldl_cons, apply_of_fits hstart]
    refine ih (fun e he => hwords e (List.mem_cons_of_mem _ he)) ?_
    obtain ⟨c, hc, hne⟩ := hwords e List.mem_cons_self
    cases rest with
    | nil => simp [hc, hne]
    | cons first rest =>
      rw [List.getLast?_append_of_ne_nil _ (List.cons_ne_nil first rest)]
      rw [← List.append_assoc, ← List.append_assoc,
        List.getLast?_append_of_ne_nil _ (List.cons_ne_nil first rest)] at hlast
      exact hlast

/-- A new spelling does not end in a question mark. -/
theorem exists_getLast?_of_edit? {previous : Option TokenKind} {t : Token} {e : Edit}
    (h : edit? previous t = some e) : ∃ c, e.2.toList.getLast? = some c ∧ c ≠ '?' := by
  have hall : ∀ entry ∈ keywords, entry.2.toList.getLast?.any (fun c => c ≠ '?') = true := by decide +kernel
  unfold edit? at h
  split at h
  · obtain ⟨keyword, hlookup, rfl⟩ := Option.map_eq_some_iff.1 h
    simpa [Option.any_eq_true] using hall _ (Registry.mem_of_lookup hlookup)
  · cases h

/-- A text in which old spellings are replaced does not end in a question mark either. -/
theorem getLast?_replace? (hlast : text.toList.getLast? ≠ some '?') (h : replace? text = some spelled) :
    spelled.toList.getLast? ≠ some '?' := by
  obtain ⟨tokens, htokens, -, rfl⟩ := replace?_eq_some_iff.1 h
  refine getLast?_text_of_fits (fits_edits htokens) ?_ hlast
  intro e he
  obtain ⟨⟨previous, t⟩, -, hedit⟩ := List.mem_filterMap.1 he
  exact exists_getLast?_of_edit? hedit

end Legacy

/-! ## §3. What a fragment stands for with a member. -/

/-- A name that is read as such everywhere is read so after a dot. -/
theorem ReadAsName.readAfterDot (h : ReadAsName word) : ReadAfterDot word := by
  have htoken := h.token (nofun : EndsName []) (some .dot) 0
  rwa [List.append_nil] at htoken

namespace Fragment

/-- A member adds no null propagation. -/
theorem propagates_of_member {position : Nat} (hword : ReadAfterDot word)
    (hlast : text.toList.getLast? ≠ some '?') (htokens : tokenize text = .ok tokens)
    (hfirst : ∀ t ∈ tokens.head?, t.kind ≠ .finish) (h : Propagates (text ++ "." ++ word).toList position) :
    ∃ position', Propagates text.toList position' := by
  obtain ⟨past, d, hd, hkind, -⟩ := h
  obtain ⟨front, last, member, rfl, -, htokens', hmember⟩ := tokenize_member hword hlast htokens hfirst
  rcases List.mem_append.1 (mem_of_reaches htokens' hd) with hmem | hmem
  · obtain ⟨c, ts, hopen, hts, hafter⟩ := after_of_tokenize htokens
    obtain ⟨past', e, he, hcurrent⟩ :=
      reaches_of_mem (.first hopen) hafter (hts ▸ List.mem_append_left [last] hmem)
    exact ⟨_, past', e, he, hcurrent ▸ hkind, rfl⟩
  · have hmem := List.mem_map_of_mem (f := Token.kind) hmem
    rw [hmember, hkind] at hmem
    exact absurd hmem (by decide)

end Fragment

namespace Typing.Setting

open Fragment

variable {s : Setting} {spelled : String} {t type : TypeDef} {m : FoundMember} {isStatic : Bool}

/-- What a text is typed as: the text itself, or the text with its old spellings replaced, if that is asked for
and no null propagation is in it. -/
inductive Spells (s : Setting) (text : String) : String → Prop where
  | same : Spells s text text
  | replaced {spelled : String} (hretry : s.parsing.retryLegacy = true)
      (hspelled : Legacy.replace? text = some spelled) (hnone : ∀ position, ¬ Propagates text.toList position) :
      Spells s text spelled

/-- What a member `word` of the type may stand behind: an operand that has the type, unless it is the name of
another type together with the member, or the name of the type for a static one. -/
inductive TakesMember (s : Setting) (text word : String) (t : TypeDef) : Bool → Prop where
  | value (hcompile : s.compile text = .ok t) (hone : s.OneOperand text)
      (hname : ∀ u, ¬ s.NamesType (text ++ "." ++ word) u) : TakesMember s text word t false
  | typeName (hname : s.NamesType text t) : TakesMember s text word t true

/-- How the members of a value or of a type are reached. -/
def bindingOf (isStatic : Bool) : Binding := if isStatic then .ofType else .ofInstance

/-- A text that takes the member has the member's type behind the dot. -/
theorem TakesMember.compile (h : s.TakesMember text word t isStatic) (hword : ReadAfterDot word)
    (hlast : text.toList.getLast? ≠ some '?')
    (hfound : s.registry.findMember? t (plainName word) (bindingOf isStatic) s.parsing.ignoreCase = some m)
    (htype : s.registry.get? m.type = some type) : s.compile (text ++ "." ++ word) = .ok type := by
  cases h with
  | value hcompile hone hname => exact compile_member hword hlast hcompile hone hname hfound htype
  | typeName hname => exact compile_static hword hlast hname hfound htype

/-- The name of a type is read to its end. -/
theorem NamesType.tokenize (h : s.NamesType text t) : ∃ tokens, tokenize text = .ok tokens := by
  obtain ⟨c, u, hopen, hopens, hrun, hu⟩ := h
  have hplain : bracketCourse.plain c.current := bracketCourse.plain_of_word hopens.1
  have hread : WellRead c := wellRead_of_read hopen
  obtain ⟨ts, hafter, -⟩ := passable_of_follows (w := ⟨c, 0, []⟩) (Rule.follows_typeName hplain) hread hrun hu
  exact ⟨_, tokenize_of_after hopen hafter⟩

/-- Its tokens can be read. -/
theorem TakesMember.tokenize (h : s.TakesMember text word t isStatic) : ∃ tokens, tokenize text = .ok tokens := by
  cases h with
  | value hcompile =>
    obtain ⟨tokens, htokens, -⟩ := passable_of_compile hcompile
    exact ⟨tokens, htokens⟩
  | typeName hname => exact hname.tokenize

/-- There is something before the dot. -/
theorem TakesMember.ne_empty (h : s.TakesMember text word t isStatic) : text ≠ "" := by
  rintro rfl
  cases h with
  | value _ hone =>
    obtain ⟨c, a, u, hopen, -, hrun, -⟩ := hone
    cases hopen
    exact Nat.not_lt_zero _ (Rule.ahead_lt_of_run hrun)
  | typeName hname =>
    obtain ⟨c, u, hopen, hopens, -⟩ := hname
    cases hopen
    cases hopens.1

/-- **What has a type, or is one, has a type with a member**, old spellings included. -/
theorem resolve_member (hspells : s.Spells text spelled) (h : s.TakesMember spelled word t isStatic)
    (hword : ReadAfterDot word) (hlast : text.toList.getLast? ≠ some '?')
    (hfound : s.registry.findMember? t (plainName word) (bindingOf isStatic) s.parsing.ignoreCase = some m)
    (htype : s.registry.get? m.type = some type) :
    ∃ u, s.resolve (text ++ "." ++ word) = .ok (.value u) := by
  have hretrying : ∃ u, s.compileRetrying s.parsing.retryLegacy (text ++ "." ++ word) = .ok u := by
    unfold compileRetrying
    cases hcompile : s.compile (text ++ "." ++ word) with
    | ok u => exact ⟨u, rfl⟩
    | error failure =>
      -- The text may have been read as it is, or with its old spellings replaced.
      cases hspells with
      | same => cases hcompile.symm.trans (h.compile hword hlast hfound htype)
      | replaced hretry hspelled hnone =>
        -- The member adds no reason against a second attempt.
        have hfault : failure.isFault = true := by
          refine isFault_of_compile_error hcompile fun position hpropagates => ?_
          obtain ⟨tokens, htokens, hedits, -⟩ := Legacy.replace?_eq_some_iff.1 hspelled
          obtain ⟨position', hposition'⟩ :=
            propagates_of_member hword hlast htokens (Legacy.head_of_edits htokens hedits) hpropagates
          exact hnone position' hposition'
        have hlonger := h.compile hword (Legacy.getLast?_replace? hlast hspelled) hfound htype
        refine ⟨type, ?_⟩
        dsimp only
        rw [hfault, hretry, Legacy.replace?_member hword hlast hspelled, Option.map_some, hlonger]
        rfl
  obtain ⟨u, hu⟩ := hretrying
  refine ⟨u, ?_⟩
  have hempty : (text ++ "." ++ word).isEmpty = false := by
    rw [String.isEmpty_eq_false_iff]
    intro h
    have := congrArg String.toList h
    simp at this
  unfold resolve
  rw [hempty, hu]
  rfl

end Typing.Setting

/-! ## §4. Members that are listed. -/

namespace Completion

variable {s : Typing.Setting} {listing : Listing} {c : Completion} {caret : Nat} {name : String}

/-- **What is listed as a field or property finds one.** -/
theorem isSome_findMember?_of_item (h : s.complete listing text caret = .ok (some c))
    (hitem : ⟨name, .field⟩ ∈ c.items ∨ ⟨name, .property⟩ ∈ c.items) (ignoreCase : Bool) :
    (s.registry.findMember? c.type name (Typing.Setting.bindingOf c.isStatic) ignoreCase).isSome = true := by
  obtain ⟨start, analysis, -, -, rfl⟩ := exists_analyze_of_complete h
  set t := analysis.resolution.type?.getD s.context
  have hmembers : ⟨name, .field⟩ ∈ memberItems s.registry t analysis.resolution.binding listing.inherited ∨
      ⟨name, .property⟩ ∈ memberItems s.registry t analysis.resolution.binding listing.inherited := by
    unfold ofAnalysis itemsOf at hitem
    dsimp only at hitem
    split at hitem
    · simpa using hitem
    · exact hitem
  obtain ⟨fields, properties, methods, hitems, -, -, -, hfields, hproperties, -⟩ :=
    presents_memberItems s.registry t analysis.resolution.binding listing.inherited
  -- What is listed under fields or properties is one of their names.
  have hlisted : name ∈ (s.registry.memberNames t analysis.resolution.binding listing.inherited).fields ∨
      name ∈ (s.registry.memberNames t analysis.resolution.binding listing.inherited).properties := by
    rw [hitems] at hmembers
    rcases hmembers with hmem | hmem
    · exact .inl ((hfields name).1 (by simpa using hmem)).1
    · exact .inr ((hproperties name).1 (by simpa using hmem))
  have hfound := Registry.isSome_findMember?_of_listed hlisted
  -- A name that is found as it is spelled is found regardless of case.
  cases ignoreCase with
  | false => exact hfound
  | true => exact Registry.isSome_findMember?_ignoreCase hfound

end Completion

namespace Registry

variable {r : Registry} {t : TypeDef} {name : String} {binding : Binding} {ignoreCase : Bool} {m : FoundMember}

/-- **In a registry that comes of a model, the members of its types have types of it.** -/
theorem WellFormed.isSome_get?_member (hr : r.WellFormed) (ht : r.Knows t)
    (h : r.findMember? t name binding ignoreCase = some m) : (r.get? m.type).isSome = true := by
  rw [findMember?_eq_find?] at h
  obtain ⟨owner, howner, hm⟩ := List.mem_flatMap.1 (List.mem_of_find?_eq_some h)
  have hroot : ∀ u, r.get? Known.object = some u → r.Knows u := fun _ => knows_of_get?
  refine hr.mentions (inherited_knows.lookupChain hroot ht owner howner) ?_
  unfold TypeDef.mentions
  rcases List.mem_append.1 hm with hm | hm
  · obtain ⟨field, hfield, rfl⟩ := List.mem_map.1 hm
    have := List.mem_map_of_mem (f := DataMember.type) (List.mem_of_mem_filter hfield)
    simp [this]
  · obtain ⟨property, hproperty, rfl⟩ := List.mem_map.1 hm
    have := List.mem_map_of_mem (f := DataMember.type) (List.mem_of_mem_filter hproperty)
    simp [this]

end Registry

/-- A name does not end in a dot. -/
theorem ReadAsName.getLast? (h : ReadAsName word) (cs : List Char) : (cs ++ word.toList).getLast? ≠ some '.' := by
  obtain ⟨first, rest, hword, hplain⟩ := h.plainWord
  rw [hword, List.getLast?_append_of_ne_nil _ (List.cons_ne_nil first rest)]
  intro hlast
  rcases List.mem_cons.1 (List.mem_of_getLast? hlast) with rfl | hrest
  · exact absurd hplain.starts (by decide)
  · exact absurd (hplain.chars _ hrest) (by decide)

section

variable {s : Typing.Setting} {listing : Listing} {T name spelled : String} {c : Completion} {r : Fragment}
  {model : TypeModel} {loaded : LoadedModel}

/-- **A member that is listed after a dot may be typed.** -/
theorem analyze_listed (hload : model.load = .ok loaded) (hregistry : s.registry = loaded.registry)
    (hcomplete : s.complete listing (T ++ ".") (T ++ ".").utf8ByteSize = .ok (some c))
    (hitem : ⟨name, .field⟩ ∈ c.items ∨ ⟨name, .property⟩ ∈ c.items)
    (hname : ReadAsName name) (hplain : '@' ∉ name.toList)
    (hsize : (T ++ "." ++ name).utf8ByteSize ≤ Limits.sourceBytes)
    (hlast : T.toList.getLast? ≠ some '?') (hlocate : Fragment.locate s.parsing T = .ok r)
    (hspells : s.Spells r.text spelled) (htakes : s.TakesMember spelled name c.type c.isStatic)
    (htype : s.registry.Knows c.type ∨ ∀ m,
      s.registry.findMember? c.type name (Typing.Setting.bindingOf c.isStatic) s.parsing.ignoreCase = some m →
        s.registry.get? m.type ≠ none) :
    ∃ analysis t, s.analyze (T ++ "." ++ name) (T ++ "." ++ name).utf8ByteSize = .ok analysis ∧
      analysis.fragment.text = r.text ++ "." ++ name ∧ analysis.resolution = .value t := by
  -- The name finds a member, which has a type of the registry.
  obtain ⟨m, hm⟩ := Option.isSome_iff_exists.1
    (Completion.isSome_findMember?_of_item hcomplete hitem s.parsing.ignoreCase)
  have hformed : s.registry.WellFormed := hregistry ▸ (TypeModel.wellFormed_of_load hload).1
  obtain ⟨type, hget⟩ : ∃ type, s.registry.get? m.type = some type := by
    rcases htype with hknown | hregistered
    · exact Option.isSome_iff_exists.1 (hformed.isSome_get?_member hknown hm)
    · exact Option.ne_none_iff_exists'.1 (hregistered m hm)
  rw [← plainName_of_not_mem hplain] at hm
  -- What is known of the fragment is so of the text before the dot.
  have hfragment : (∃ tokens, tokenize r.text = .ok tokens) ∧ r.text ≠ "" := by
    cases hspells with
    | same => exact ⟨htakes.tokenize, htakes.ne_empty⟩
    | replaced _ hspelled _ =>
      obtain ⟨tokens, htokens, -⟩ := Legacy.replace?_eq_some_iff.1 hspelled
      refine ⟨⟨tokens, htokens⟩, ?_⟩
      intro hempty
      rw [hempty] at hspelled
      cases hspelled
  obtain ⟨⟨tokens, htokens⟩, hne⟩ := hfragment
  have hread : Fragment.Readable T.toList :=
    Fragment.readable_of_locate hlocate (Fragment.readable_of_tokenize htokens)
  have hlast' : r.text.toList.getLast? ≠ some '?' := by
    obtain ⟨front, hfront, -⟩ := Text.dropBytes?_eq_some (Fragment.answers_of_locate hlocate).rest
    rwa [hfront, List.getLast?_append_of_ne_nil] at hlast
    simpa using hne
  -- The fragment of the longer text is that of the shorter one with the member.
  have hword := hname.readAfterDot
  obtain ⟨stoppedBy, hlonger⟩ := Fragment.locate_member hread hlast hword hlocate hne
  rw [← String.append_assoc, ← String.append_assoc] at hlonger
  obtain ⟨u, hresolve⟩ := Typing.Setting.resolve_member hspells htakes hword hlast' hm hget
  refine ⟨⟨.value u, ⟨r.start, r.text ++ "." ++ name, stoppedBy⟩⟩, u, ?_, rfl, rfl⟩
  -- Nothing of the longer text is left out at its end.
  have hwhole : takeBytes? (T ++ "." ++ name).utf8ByteSize (T ++ "." ++ name).toList =
      some (T ++ "." ++ name).toList := by
    have htake := takeBytes?_append (T ++ "." ++ name).toList []
    rwa [List.append_nil, byteSize_toList] at htake
  have hcut : String.ofList (Analysis.withoutDot (T ++ "." ++ name).toList) = T ++ "." ++ name := by
    unfold Analysis.withoutDot
    rw [if_neg, String.ofList_toList]
    rw [String.toList_append]
    exact hname.getLast? _
  rw [analyze_of_takeBytes? hsize hwhole]
  unfold Typing.Setting.analyzeCut
  rw [hcut, hlonger]
  show (do let resolution ← s.resolve (r.text ++ "." ++ name); pure _ : Except Failure Analysis) = _
  rw [hresolve]
  rfl

/-- A list is there if something about it is known. -/
theorem exists_complete {β : Type} {caret : Nat} {f : Completion → β} {x : β}
    (h : (s.complete listing T caret).toOption.join.map f = some x) :
    ∃ c, s.complete listing T caret = .ok (some c) ∧ f c = x := by
  obtain ⟨c, hcomplete, hx⟩ := Option.map_eq_some_iff.1 h
  refine ⟨c, ?_, hx⟩
  cases hfound : s.complete listing T caret with
  | error failure =>
    rw [hfound] at hcomplete
    cases hcomplete
  | ok found =>
    rw [hfound] at hcomplete
    exact congrArg _ hcomplete

end

/-- An operand in a call that is not closed, and an old spelling of a type in another one. -/
theorem analyze_listed_of_arguments :
    let s : Typing.Setting := ⟨.empty, {}, Predefined.stringType⟩
    (∃ analysis t, s.analyze "f(it.Length" 11 = .ok analysis ∧ analysis.fragment.text = "it.Length" ∧
      analysis.resolution = .value t) ∧
    ∃ analysis t, s.analyze "f(guid.Empty" 12 = .ok analysis ∧ analysis.fragment.text = "guid.Empty" ∧
      analysis.resolution = .value t := by
  intro s
  have hload : TypeModel.load {} = .ok ⟨.empty, none⟩ := rfl
  constructor
  -- A value: `it` in the arguments of a call that is still open.
  · obtain ⟨c, hcomplete, hlisted⟩ := exists_complete
      (show (s.complete {} "f(it." 5).toOption.join.map (fun c => (c.type, c.isStatic,
        decide (⟨"Length", .property⟩ ∈ c.items))) = some (Predefined.stringType, false, true) by decide +kernel)
    simp only [Prod.mk.injEq, decide_eq_true_eq] at hlisted
    obtain ⟨htype, hstatic, hitem⟩ := hlisted
    have hsign : Typing.Rule.NoSign ⟨2, 2, [], ⟨.identifier, "it", 0⟩⟩ := by
      unfold Typing.Rule.NoSign
      decide
    have htakes : s.TakesMember "it" "Length" c.type c.isStatic := by
      rw [htype, hstatic]
      refine .value (by decide +kernel) ⟨_, _, _, rfl, hsign, rfl, rfl⟩ ?_
      rintro u ⟨d, v, hopen, hopens, -⟩
      cases hopen
      exact hopens.2.1 (by decide)
    have hlocate : Fragment.locate s.parsing "f(it" =
        .ok ⟨2, "it", some ⟨.closeParenOrCommaExpected, 4⟩⟩ := by decide +kernel
    exact analyze_listed hload rfl hcomplete (.inr hitem) rfl (by decide) (by decide) (by decide) hlocate
      .same htakes (.inl (htype ▸ Registry.knows_predefined (by decide +kernel)))
  -- The name of a type in its old spelling, which the second attempt replaces.
  · obtain ⟨c, hcomplete, hlisted⟩ := exists_complete
      (show (s.complete {} "f(guid." 7).toOption.join.map (fun c => (c.type, c.isStatic,
        decide (⟨"Empty", .field⟩ ∈ c.items))) = some (Predefined.guidType, true, true) by decide +kernel)
    simp only [Prod.mk.injEq, decide_eq_true_eq] at hlisted
    obtain ⟨htype, hstatic, hitem⟩ := hlisted
    have hspells : s.Spells "guid" "Guid" := by
      refine .replaced rfl (by decide +kernel) ?_
      rintro position ⟨past, d, hd, hkind, -⟩
      have htokens : tokenize "guid" = .ok [⟨.identifier, "guid", 0⟩, .finish 4] := rfl
      have hmem := mem_of_reaches htokens hd
      simp only [List.mem_cons, List.not_mem_nil, or_false] at hmem
      rcases hmem with hmem | hmem <;> rw [hmem] at hkind <;> cases hkind
    have htakes : s.TakesMember "Guid" "Empty" c.type c.isStatic := by
      rw [htype, hstatic]
      exact .typeName ⟨_, _, rfl, ⟨rfl, by decide, rfl⟩, rfl, rfl⟩
    have hlocate : Fragment.locate s.parsing "f(guid" =
        .ok ⟨2, "guid", some ⟨.closeParenOrCommaExpected, 6⟩⟩ := by decide +kernel
    exact analyze_listed hload rfl hcomplete (.inl hitem) rfl (by decide) (by decide) (by decide) hlocate
      hspells htakes (.inl (htype ▸ Registry.knows_predefined (by decide +kernel)))

/-! ## §5. Members that are listed in vain. -/

/-- A field or property is listed after the text and a dot, and has no value there. -/
structure ListedInVain (s : Typing.Setting) (T name : String) : Prop where
  listed : ∃ c, s.complete {} (T ++ ".") (T ++ ".").utf8ByteSize = .ok (some c) ∧
    (⟨name, .field⟩ ∈ c.items ∨ ⟨name, .property⟩ ∈ c.items)
  isName : ReadAsName name
  failing : ∃ failure, s.analyze (T ++ "." ++ name) (T ++ "." ++ name).utf8ByteSize = .error failure

/-- A member that is listed and then not found, as the outcomes of both analyses show. -/
theorem listedInVain_of {s : Typing.Setting} {T name : String} (kind : ItemKind)
    (hkind : kind = .field ∨ kind = .property) (hname : ReadAsName name)
    (hlisted : (s.complete {} (T ++ ".") (T ++ ".").utf8ByteSize).toOption.join.map (fun c =>
      decide (⟨name, kind⟩ ∈ c.items)) = some true)
    (hfailing : (s.analyze (T ++ "." ++ name) (T ++ "." ++ name).utf8ByteSize).toOption.isNone = true) :
    ListedInVain s T name := by
  obtain ⟨c, hcomplete, hitem⟩ := exists_complete hlisted
  have hitem : ⟨name, kind⟩ ∈ c.items := of_decide_eq_true hitem
  have hlisted : ⟨name, .field⟩ ∈ c.items ∨ ⟨name, .property⟩ ∈ c.items := by
    rcases hkind with rfl | rfl
    · exact .inl hitem
    · exact .inr hitem
  refine ⟨⟨c, hcomplete, hlisted⟩, hname, ?_⟩
  cases hanalyze : s.analyze (T ++ "." ++ name) (T ++ "." ++ name).utf8ByteSize with
  | error failure => exact ⟨failure, rfl⟩
  | ok analysis =>
    rw [hanalyze] at hfailing
    cases hfailing

/-- **Not every member that is listed has a value**: after the name of a type in another spelling, after
nothing, after a second dot, after a question mark, after a sum, and where its type is no type of the registry.
With the member after it an operand may be the name of a type, and a name may be another one than it is
listed as. -/
theorem listed_in_vain :
    (∃ loaded, TypeModel.load {} = .ok loaded ∧
      let s : Typing.Setting := ⟨loaded.registry, {}, Predefined.stringType⟩
      ListedInVain s "STRING" "Empty" ∧ ListedInVain s "" "Length" ∧ ListedInVain s "it." "Length" ∧
        ListedInVain s "it?" "Length" ∧ ListedInVain s "it + Length" "Length" ∧
        ListedInVain s "new (new (1 as a) as b)" "b") ∧
    (∃ loaded context, TypeModel.load { context := some "Part", expose := ["A.B"], types :=
        [{ name := "Part", properties := [⟨"A", "Gear", false⟩] },
          { name := "Gear", properties := [⟨"B", "Gear", false⟩] }, { name := "B", space := "A" }] } = .ok loaded ∧
      loaded.context = some context ∧ ListedInVain ⟨loaded.registry, {}, context⟩ "A" "B") ∧
    ∃ loaded context, TypeModel.load { context := some "Part", types :=
        [{ name := "Part", properties := [⟨"@x", "Part", false⟩] }] } = .ok loaded ∧
      loaded.context = some context ∧ ListedInVain ⟨loaded.registry, {}, context⟩ "it" "@x" := by
  refine ⟨⟨_, rfl, ?_⟩, ⟨_, _, rfl, rfl, ?_⟩, _, _, rfl, rfl, ?_⟩
  -- In the order of the statement: a name in other letters, no operand, a member that has no name, a
  -- question mark, an operator, an anonymous type.
  · exact ⟨listedInVain_of .field (.inl rfl) rfl (by decide +kernel) (by decide +kernel),
      listedInVain_of .property (.inr rfl) rfl (by decide +kernel) (by decide +kernel),
      listedInVain_of .property (.inr rfl) rfl (by decide +kernel) (by decide +kernel),
      listedInVain_of .property (.inr rfl) rfl (by decide +kernel) (by decide +kernel),
      listedInVain_of .property (.inr rfl) rfl (by decide +kernel) (by decide +kernel),
      listedInVain_of .property (.inr rfl) rfl (by decide +kernel) (by decide +kernel)⟩
  -- A name of a namespace hides the member.
  · exact listedInVain_of .property (.inr rfl) rfl (by decide +kernel) (by decide +kernel)
  -- The mark before a name is taken off where the member is looked up.
  · exact listedInVain_of .property (.inr rfl) rfl (by decide +kernel) (by decide +kernel)

end TypeAhead
