/-
  TypeAhead.Proofs.Typing.FullName — EVERY ACCESSIBLE TYPE CAN BE NAMED IN FULL.

  A full name is read word by word.  Of the words read so far the walk asks first whether
  they name a type, and then whether they are a namespace; it goes on only if they are one
  and no type.  So it comes to the end of a full name if none of its beginnings names
  anything, and there it finds the type, since a full name is that of one type.  It moves
  only then: what comes next is what stands behind the name.

      findAccessible?_fullName    what a full name finds
      qualifiedType?_joined       the look ahead, from any word of the name on
      full_name                   the name of a type, and its static members
-/
import TypeAhead.Proofs.Types.History
import TypeAhead.Proofs.Types.Within
import TypeAhead.Proofs.Typing.ImplicitIt

namespace TypeAhead

/-! ## §1. Words with something between them. -/

/-- The words, with dots between them. -/
def dotted (words : List String) : String := ".".intercalate words

/-- The characters are those of the words, with a dot or a plus between each and the next one. -/
inductive Joined : List String → List Char → Prop where
  | last (word : String) : Joined [word] word.toList
  | joint (word : String) {joint : Char} {words : List String} {text : List Char}
      (hjoint : joint = '.' ∨ joint = '+') (h : Joined words text) :
      Joined (word :: words) (word.toList ++ joint :: text)

variable {words front back path : List String} {word : String} {text more : List Char}

theorem dotted_append (hfront : front ≠ []) (hback : back ≠ []) :
    dotted (front ++ back) = dotted front ++ "." ++ dotted back := by
  unfold dotted
  induction front with
  | nil => exact absurd rfl hfront
  | cons word front ih =>
    cases front with
    | nil =>
      cases back with
      | nil => exact absurd rfl hback
      | cons next back =>
        rw [List.singleton_append, String.intercalate_cons_cons, String.intercalate_singleton]
    | cons next front =>
      rw [List.cons_append, List.cons_append, String.intercalate_cons_cons, ← List.cons_append, ih nofun,
        String.intercalate_cons_cons]
      simp only [String.append_assoc]

theorem dotted_concat (hfront : front ≠ []) (word : String) :
    dotted (front ++ [word]) = dotted front ++ "." ++ word := by
  rw [dotted_append hfront (List.cons_ne_nil _ _)]
  exact congrArg _ String.intercalate_singleton

theorem Joined.ne_nil (h : Joined words text) : words ≠ [] := by
  cases h <;> exact nofun

/-- Words with dots between them are joined. -/
theorem joined_dotted (h : words ≠ []) : Joined words (dotted words).toList := by
  induction words with
  | nil => exact absurd rfl h
  | cons word words ih =>
    cases words with
    | nil =>
      rw [dotted, String.intercalate_singleton]
      exact .last word
    | cons next words =>
      have htext : (dotted (word :: next :: words)).toList =
          word.toList ++ '.' :: (dotted (next :: words)).toList := by
        simp [dotted, String.intercalate_cons_cons]
      rw [htext]
      exact .joint word (.inl rfl) (ih nofun)

/-- There are not more words than bytes, but for one. -/
theorem Joined.length_le (h : Joined words text) : words.length ≤ Text.byteSize text + 1 := by
  induction h with
  | last => simp
  | @joint _ joint _ _ _ _ ih =>
    have := joint.utf8Size_pos
    simp only [List.length_cons, Text.byteSize_append, Text.byteSize_cons]
    omega

/-- A dot or a plus does not go on with a name. -/
theorem endsName_joint {joint : Char} (h : joint = '.' ∨ joint = '+') : EndsName (joint :: more) := by
  rcases h with rfl | rfl <;> exact endsName_cons rfl

/-- The first word is read by itself. -/
theorem Joined.first_word (h : Joined (word :: words) text) {more : List Char} (hmore : EndsName more) :
    ∃ rest, text ++ more = word.toList ++ rest ∧ EndsName rest := by
  cases h with
  | last => exact ⟨more, rfl, hmore⟩
  | @joint _ joint _ text hjoint =>
    exact ⟨joint :: (text ++ more), by simp, endsName_joint hjoint⟩

/-! ## §2. What a full name finds. -/

namespace Registry

variable {r : Registry} {context t u : TypeDef}

/-- What an expression may name is in the registry, or the type of the context. -/
theorem Built.knowsWith_of_accessible (hr : r.Built) (ht : t ∈ r.accessible (some context)) :
    r.KnowsWith context t := by
  unfold accessible at ht
  rcases List.mem_append.1 ht with ht | ht
  · rcases List.mem_append.1 ht with ht | ht
    · exact .inr (knows_predefined ht)
    · exact .inr (hr.exposed t ht)
  · exact (inherited_knowsWith context).hierarchy (.inl rfl) t ht

/-- **A full name is that of one type.** -/
theorem Built.eq_of_fullName (hr : r.Built) (hcontext : r.Admits context) (ht : r.KnowsWith context t)
    (hu : r.KnowsWith context u) (h : u.fullName = t.fullName) : u = t := by
  rcases hu with rfl | hu
  · rcases ht with rfl | ht
    · rfl
    · exact (hcontext t (h ▸ hr.get?_fullName ht)).symm
  · exact hr.admits_of_knowsWith hcontext ht u (h ▸ hr.get?_fullName hu)

/-- A full name finds its type, unless it is the simple name of another one. -/
theorem Built.findAccessible?_fullName (hr : r.Built) (hcontext : r.Admits context)
    (ht : t ∈ r.accessible (some context))
    (hsimple : ∀ u ∈ r.accessible (some context), u.name = t.fullName → u = t) :
    r.findAccessible? t.fullName (some context) = some t := by
  unfold findAccessible?
  cases hfind : (r.accessible (some context)).find? fun u => u.name == t.fullName || u.fullName == t.fullName with
  | none =>
    have := List.find?_eq_none.1 hfind t ht
    simp at this
  | some u =>
    have hu := List.mem_of_find?_eq_some hfind
    have hnamed := List.find?_some hfind
    simp only [Bool.or_eq_true, beq_iff_eq] at hnamed
    rcases hnamed with hname | hname
    · rw [hsimple u hu hname]
    · rw [hr.eq_of_fullName hcontext (hr.knowsWith_of_accessible ht) (hr.knowsWith_of_accessible hu) hname]

/-- The first words of the namespace of an accessible type are a namespace. -/
theorem isNamespace_of_append (ht : t ∈ r.accessible (some context)) (hspace : t.space = dotted (front ++ back))
    (hfront : front ≠ []) : r.isNamespace (dotted front) (some context) = true := by
  refine List.any_eq_true.2 ⟨t, ht, ?_⟩
  rw [hspace, Bool.or_eq_true]
  cases back with
  | nil =>
    rw [List.append_nil]
    exact .inl (beq_self_eq_true _)
  | cons word back =>
    right
    rw [dotted_append hfront (List.cons_ne_nil _ _), Text.startsWith, List.isPrefixOf_iff_prefix]
    simp only [String.toList_append]
    exact List.prefix_append _ _

end Registry

namespace Typing

open Walker

variable {s : Setting} {t : TypeDef} {c d e : Cursor}

/-- The accessible type can be named in full: its namespace is a path of words and its name is a word, and
neither all of them together nor the first few of them mean anything else. -/
structure NamedInFull (s : Setting) (t : TypeDef) (path : List String) : Prop where
  accessible : t ∈ s.registry.accessible (some s.context)
  space : t.space = dotted path
  words : ∀ word ∈ path ++ [t.name], ReadAsName word ∧ '@' ∉ word.toList
  keyword : ∀ word ∈ (path ++ [t.name]).head?, Text.lower word ∉ Rule.keywords
  unaliased : Known.ofKeyword? t.fullName = none
  beginnings : ∀ front, front <+: path → front ≠ [] → Known.ofKeyword? (dotted front) = none ∧
    s.registry.findAccessible? (dotted front) (some s.context) = none
  simple : ∀ u ∈ s.registry.accessible (some s.context), u.name = t.fullName → u = t

/-- The words of the full name. -/
theorem NamedInFull.fullName_eq (h : NamedInFull s t path) : t.fullName = dotted (path ++ [t.name]) := by
  unfold TypeDef.fullName
  cases path with
  | nil =>
    rw [h.space]
    exact String.intercalate_singleton.symm
  | cons word path =>
    have hne : ¬ t.space.isEmpty = true := by
      obtain ⟨first, rest, hword, -⟩ := (h.words word List.mem_cons_self).1.plainWord
      have hjoined : Joined (word :: path) (dotted (word :: path)).toList := joined_dotted nofun
      obtain ⟨rest', htext, -⟩ := hjoined.first_word (nofun : EndsName [])
      intro hempty
      rw [h.space, String.isEmpty_iff] at hempty
      rw [hempty, hword] at htext
      cases htext
    rw [if_neg hne, h.space, dotted_concat (List.cons_ne_nil _ _)]

/-- The first words of the path are a namespace. -/
theorem NamedInFull.isNamespace (h : NamedInFull s t path) (hfront : front <+: path) (hne : front ≠ []) :
    s.registry.isNamespace (dotted front) (some s.context) = true := by
  obtain ⟨back, rfl⟩ := hfront
  exact Registry.isNamespace_of_append h.accessible h.space hne

/-- The first word by itself is a namespace and no type, if there are others. -/
theorem NamedInFull.first_word (h : NamedInFull s t path) {words : List String}
    (hwords : path ++ [t.name] = word :: words) (hne : words ≠ []) :
    Rule.wordType? s word = none ∧ s.registry.isNamespace word (some s.context) = true := by
  have hpath : [word] <+: path := by
    cases path with
    | nil => exact absurd (List.cons.inj hwords).2.symm hne
    | cons first path =>
      obtain ⟨rfl, -⟩ := List.cons.inj hwords
      exact ⟨path, rfl⟩
  have hdotted : dotted [word] = word := String.intercalate_singleton
  obtain ⟨hkeyword, htype⟩ := h.beginnings [word] hpath nofun
  have hspace := h.isNamespace hpath nofun
  rw [hdotted] at hkeyword htype hspace
  refine ⟨?_, hspace⟩
  unfold Rule.wordType?
  rw [hkeyword]
  exact htype

/-! ## §3. Looking ahead. -/

namespace Rule

/-- A dot or a plus is a token of its own. -/
theorem next_joint {joint : Char} (hjoint : joint = '.' ∨ joint = '+') (hc : c.current.isFinish = false)
    (hrest : c.rest = joint :: text) : ∃ d, c.next = .ok d ∧ (d.current.kind = .dot ∨ d.current.kind = .plus) ∧
      d.size = c.size ∧ d.offset = c.offset + 1 ∧ d.rest = text := by
  rw [Cursor.next_of_not_finish hc, hrest]
  rcases hjoint with rfl | rfl
  · exact ⟨⟨c.size, c.offset + 1, text, ⟨.dot, ".", c.offset⟩⟩, rfl, .inl rfl, rfl, rfl, rfl⟩
  · exact ⟨⟨c.size, c.offset + 1, text, ⟨.plus, "+", c.offset⟩⟩, rfl, .inr rfl, rfl, rfl, rfl⟩

/-- One word more. -/
theorem qualifiedType?_step (hword : ReadAsName word) (hat : '@' ∉ word.toList) (hmore : EndsName more)
    {joint : Char} (hjoint : joint = '.' ∨ joint = '+') (hc : c.current.isFinish = false)
    (hrest : c.rest = joint :: (word.toList ++ more)) (qualified : String) (budget : Nat) :
    ∃ e, e.current.kind = .identifier ∧ e.size = c.size ∧ e.offset = c.offset + 1 + word.utf8ByteSize ∧
      e.rest = more ∧ qualifiedType? s qualified c (budget + 1) =
        match s.registry.findAccessible? (qualified ++ "." ++ word) (some s.context) with
        | some t => .ok (some (t, e))
        | none =>
          if s.registry.isNamespace (qualified ++ "." ++ word) (some s.context) then
            qualifiedType? s (qualified ++ "." ++ word) e budget
          else .ok none := by
  obtain ⟨d, hd, hkind, hsize, hoffset, hrest'⟩ := next_joint hjoint hc hrest
  -- Behind the joint the lexer reads the whole word.
  let e : Cursor := ⟨d.size, d.offset + word.utf8ByteSize, more, ⟨.identifier, word, d.offset⟩⟩
  have hnext : d.next = .ok e := by
    rw [Cursor.next_of_not_finish (by rcases hkind with h | h <;> simp [Token.isFinish, h]), hrest']
    exact hword.read hmore _ _ _
  refine ⟨e, rfl, hsize, congrArg (· + word.utf8ByteSize) hoffset, rfl, ?_⟩
  have hjoint : ¬ (d.current.kind ≠ .dot && d.current.kind ≠ .plus) = true := by
    rcases hkind with h | h <;> simp [h]
  have hname : ¬ e.current.kind ≠ .identifier := fun hne => hne rfl
  -- A word without `@` is its own plain name.
  have hplain : plainName e.current.text = word := plainName_of_not_mem hat
  rw [qualifiedType?]
  cases hfound : s.registry.findAccessible? (qualified ++ "." ++ word) (some s.context) <;>
    simp only [hd, if_neg hjoint, hnext, if_neg hname, hplain, hfound]

/-- **The look ahead finds the type, from any word of the full name on**, and ends on the last one. -/
theorem qualifiedType?_joined (hr : s.registry.Built) (hcontext : s.registry.Admits s.context)
    (h : NamedInFull s t path) {words : List String} (hjoined : Joined words text) (hmore : EndsName more)
    (front : List String) {joint : Char} {budget : Nat} (hwords : front ++ words = path ++ [t.name])
    (hfront : front ≠ []) (hjoint : joint = '.' ∨ joint = '+') (hc : c.current.isFinish = false)
    (hrest : c.rest = joint :: (text ++ more)) (hbudget : words.length ≤ budget) :
    ∃ e, qualifiedType? s (dotted front) c budget = .ok (some (t, e)) ∧ e.current.kind = .identifier ∧
      e.size = c.size ∧ e.offset = c.offset + 1 + Text.byteSize text ∧ e.rest = more := by
  -- By induction on the words that are still to be read.
  induction hjoined generalizing front c joint budget with
  | last word =>
    obtain ⟨hword, hat⟩ := h.words word (hwords ▸ by simp)
    obtain ⟨budget, rfl⟩ : ∃ k, budget = k + 1 := ⟨budget - 1, (Nat.succ_pred_eq_of_pos hbudget).symm⟩
    obtain ⟨e, hkind, hsize, hoffset, hrest', hstep⟩ :=
      qualifiedType?_step (s := s) hword hat hmore hjoint hc hrest (dotted front) budget
    refine ⟨e, ?_, hkind, hsize, by rw [hoffset, Text.byteSize_toList], hrest'⟩
    -- The last word completes the full name, which means the type.
    rw [hstep, ← dotted_concat hfront, hwords, ← h.fullName_eq,
      hr.findAccessible?_fullName hcontext h.accessible h.simple]
  | @joint word joint' words text hjoint' hjoined ih =>
    obtain ⟨hword, hat⟩ := h.words word (hwords ▸ by simp)
    have hmore' : EndsName (joint' :: (text ++ more)) := endsName_joint hjoint'
    rw [List.append_assoc, List.cons_append] at hrest
    obtain ⟨budget, rfl⟩ : ∃ k, budget = k + 1 := ⟨budget - 1, by simp at hbudget; omega⟩
    obtain ⟨e, hkind, hsize, hoffset, hrest', hstep⟩ :=
      qualifiedType?_step (s := s) hword hat hmore' hjoint hc hrest (dotted front) budget
    -- The words so far are the first ones of the path, as there are others.
    have hwords' : (front ++ [word]) ++ words = path ++ [t.name] := by rw [← hwords]; simp
    have hpath : front ++ [word] <+: path := by
      rcases List.prefix_concat_iff.1 (hwords' ▸ List.prefix_append (front ++ [word]) words) with heq | hpath
      · rw [← heq] at hwords'
        exact absurd (List.append_right_eq_self.1 hwords') hjoined.ne_nil
      · exact hpath
    have hne : front ++ [word] ≠ [] := by simp
    obtain ⟨e', hfound, hkind', hsize', hoffset', hlast⟩ := ih _ hwords' hne hjoint'
      (by rw [Token.isFinish, hkind]; rfl) hrest' (Nat.le_of_succ_le_succ hbudget)
    refine ⟨e', ?_, hkind', hsize'.trans hsize, ?_, hlast⟩
    -- A shorter path means no type, but it is a namespace, so the walk goes on.
    · rw [hstep, ← dotted_concat hfront, (h.beginnings _ hpath hne).2]
      simp only [h.isNamespace hpath hne, if_true]
      exact hfound
    · rw [hoffset', hoffset, Text.byteSize_append, Text.byteSize_cons, Text.byteSize_toList]
      have hone : joint'.utf8Size = 1 := by rcases hjoint' with rfl | rfl <;> rfl
      omega

/-! ## §4. The name of a type. -/

variable {call : Rule → Typer Operand} {w : ScopedWalk} {size start : Nat} {previous : Option TokenKind}

/-- What an opening parenthesis or a dot is read as. -/
theorem read_opens (hopens : ∃ rest, more = '.' :: rest ∨ more = '(' :: rest) (size : Nat)
    (previous : Option TokenKind) (start : Nat) :
    EndsName more ∧ ∃ d, Cursor.read size previous start more = .ok d := by
  obtain ⟨rest, rfl | rfl⟩ := hopens
  · exact ⟨endsName_cons rfl, _, rfl⟩
  · exact ⟨endsName_cons rfl, _, rfl⟩

/-- **The walk goes past the full name of a type, and no farther.** -/
theorem run_typeName_of_fullName (hr : s.registry.Built) (hcontext : s.registry.Admits s.context)
    (h : NamedInFull s t path) (hjoined : Joined (path ++ [t.name]) text) (hmore : EndsName more)
    (hsize : Text.byteSize text ≤ size) (hread : Cursor.read size previous start (text ++ more) = .ok w.cursor)
    (hnext : Cursor.read size (some .identifier) (start + Text.byteSize text) more = .ok d) :
    (typeName s).run w = .ok (some t) (w.moved d) := by
  obtain ⟨c, depth, held⟩ := w
  unfold typeName
  rw [run_bind_of_ok (show cursor.run ⟨c, depth, held⟩ = .ok c ⟨c, depth, held⟩ from rfl)]
  generalize hwords : path ++ [t.name] = words at hjoined
  cases hjoined with
  | last word =>
    -- The type is in no namespace, and the word is its name.
    obtain ⟨hword, hat⟩ := h.words word (hwords ▸ by simp)
    have htype : wordType? s word = some t := by
      have hfull : t.fullName = word := by
        rw [h.fullName_eq, hwords]
        exact String.intercalate_singleton
      unfold wordType?
      rw [← hfull, h.unaliased]
      exact hr.findAccessible?_fullName hcontext h.accessible h.simple
    obtain rfl := Except.ok.inj (hread.symm.trans (hword.read hmore size previous start))
    dsimp only
    rw [plainName_of_not_mem hat, htype]
    rw [Text.byteSize_toList] at hnext
    exact run_bind_of_ok (run_advance hnext)
  | @joint word joint words text hjoint hjoined =>
    obtain ⟨hword, hat⟩ := h.words word (hwords ▸ List.mem_cons_self)
    obtain ⟨htype, hspace⟩ := h.first_word hwords hjoined.ne_nil
    have hmore' : EndsName (joint :: (text ++ more)) := endsName_joint hjoint
    rw [List.append_assoc, List.cons_append] at hread
    obtain rfl := Except.ok.inj (hread.symm.trans (hword.read hmore' size previous start))
    dsimp only
    rw [plainName_of_not_mem hat, htype]
    -- There are fewer words than bytes, so the budget is enough.
    have hbudget : words.length ≤ size + 2 := by
      have hlength := hjoined.length_le
      rw [Text.byteSize_append, Text.byteSize_cons] at hsize
      omega
    obtain ⟨e, hfound, hkind, hsize', hoffset, hrest⟩ := qualifiedType?_joined hr hcontext h hjoined hmore
      [word] (c := ⟨size, start + word.utf8ByteSize, joint :: (text ++ more), ⟨.identifier, word, start⟩⟩)
      hwords.symm nofun hjoint rfl rfl hbudget
    rw [show dotted [word] = word from String.intercalate_singleton] at hfound
    -- The last word ends where the text of the name does.
    have hlast : e.next = .ok d := by
      rw [Cursor.next_of_not_finish (by rw [Token.isFinish, hkind]; rfl), hkind, hrest, hoffset, hsize', ← hnext]
      simp only [Text.byteSize_append, Text.byteSize_cons, Text.byteSize_toList]
      have hone : joint.utf8Size = 1 := by rcases hjoint with rfl | rfl <;> rfl
      rw [hone]
      congr 1
      omega
    simp only [hspace, if_true]
    rw [hfound]
    exact run_bind_of_ok (run_advance (w := ⟨e, depth, held⟩) hlast)

/-- The type that a member of an accessible type leads to is in the registry. -/
theorem get?_of_findMember? (hr : s.registry.Built) (hvalid : s.registry.validate = .ok ())
    (hmentions : ∀ name ∈ s.context.mentions, (s.registry.get? name).isSome = true)
    (ht : t ∈ s.registry.accessible (some s.context)) {name : String} {binding : Binding} {ignoreCase : Bool}
    {m : FoundMember} (h : s.registry.findMember? t name binding ignoreCase = some m) :
    ∃ type, s.registry.get? m.type = some type := by
  obtain ⟨owner, howner, hmember⟩ := List.exists_of_findSome?_eq_some h
  have hknown : s.registry.KnowsWith s.context owner :=
    (Registry.inherited_knowsWith s.context).lookupChain (fun _ hu => .inr (Registry.knows_of_get? hu))
      (hr.knowsWith_of_accessible ht) owner howner
  have hmention := Registry.mentions_of_memberTypes (Registry.memberType_of_member? hmember)
  have hformed : s.registry.WellFormed := ⟨hr.distinct.plain, Registry.resolved_of_validate hvalid, hr.exposed⟩
  apply Option.isSome_iff_exists.1
  rcases hknown with rfl | hknown
  · exact hmentions _ hmention
  · exact hformed.mentions hknown hmention

/-- A field or a property, by its name. -/
theorem run_memberAccess_of_found {binding : Binding} {m : FoundMember} {type : TypeDef}
    (hkind : w.cursor.current.kind = .identifier) (hnext : w.cursor.next = .ok e)
    (hopens : e.current.kind ≠ .openParen)
    (hfound : s.registry.findMember? t (plainName w.cursor.current.text) binding s.parsing.ignoreCase = some m)
    (htype : s.registry.get? m.type = some type) :
    (memberAccess s call t binding).run w = .ok { type, name := some m.name } (w.moved e) := by
  have hrequire : (require .identifier .identifierExpected).run w = .ok () w := by
    rw [require, run_demand, if_pos (by simp [Cursor.isKind, hkind])]
  unfold memberAccess
  rw [run_bind_of_ok hrequire, run_bind_of_ok (show current.run w = .ok w.cursor.current w from rfl),
    run_bind_of_ok (run_advance hnext),
    run_bind_of_ok (show kind.run (w.moved e) = .ok e.current.kind (w.moved e) from rfl)]
  rw [if_neg hopens, hfound]
  dsimp only [mentioned]
  rw [htype]
  rfl

/-- A full name starts with a name. -/
theorem opensName_of_fullName (h : NamedInFull s t path) (hjoined : Joined (path ++ [t.name]) text)
    (hmore : EndsName more) (size : Nat) (previous : Option TokenKind) (start : Nat) :
    ∃ c, Cursor.read size previous start (text ++ more) = .ok c ∧ ∀ depth, OpensName (unscoped c depth) := by
  obtain ⟨word, words, hwords⟩ : ∃ word words, path ++ [t.name] = word :: words := by
    cases path <;> exact ⟨_, _, rfl⟩
  obtain ⟨hword, hat⟩ := h.words word (hwords ▸ List.mem_cons_self)
  have hkeyword : Text.lower word ∉ keywords := h.keyword word (by rw [hwords]; rfl)
  obtain ⟨rest, htext, hends⟩ := (hwords ▸ hjoined).first_word hmore
  refine ⟨_, htext ▸ hword.read hends size previous start, fun depth => ⟨rfl, ?_, rfl⟩⟩
  exact (plainName_of_not_mem hat).symm ▸ hkeyword

/-- The name of a type with a static member behind it, and nothing after that, is an operand of the type of
the member. -/
theorem readsIn_of_typeName {m : FoundMember} {type : TypeDef} {f : Cursor}
    (hopens : ∀ depth, OpensName (unscoped c depth))
    (htypeName : ∀ depth, (typeName s).run (unscoped c depth) = .ok (some t) (unscoped d depth))
    (hdot : d.current.kind = .dot) (hd : d.next = .ok e) (hname : e.current.kind = .identifier)
    (he : e.next = .ok f) (hf : f.current.isFinish = true)
    (hfound : s.registry.findMember? t (plainName e.current.text) .ofType s.parsing.ignoreCase = some m)
    (htype : s.registry.get? m.type = some type) :
    ReadsIn (1 + operand.height) s [] operand c { type, name := some m.name } f := by
  rintro k ⟨c, depth, _⟩ rfl rfl hk -
  obtain ⟨k, rfl⟩ : ∃ k', k = k' + 1 := ⟨k - 1, by omega⟩
  -- The text ends behind the member, so it is no call.
  have hend : f.current.kind ≠ .openParen := by
    rw [Token.isFinish, beq_iff_eq] at hf
    rw [hf]
    decide
  have hmember : (memberAccess s (run s k) t .ofType).run (unscoped e depth) =
      .ok { type, name := some m.name } (unscoped f depth) :=
    run_memberAccess_of_found (w := unscoped e depth) hname he hend hfound htype
  -- The word is no keyword and not in scope, so it begins the name of a type, and the dot follows that.
  have hprimary : (primary s (run s k)).run (unscoped c depth) =
      .ok { type, name := some m.name } (unscoped f depth) := by
    unfold primary
    rw [run_bind_of_ok (show kind.run (unscoped c depth) = .ok c.current.kind (unscoped c depth) from rfl),
      (hopens depth).1]
    dsimp only
    rw [run_word (hopens depth), Rule.name,
      run_bind_of_ok (show current.run (unscoped c depth) = .ok c.current _ from rfl),
      run_bind_of_ok (htypeName depth)]
    dsimp only [typeAccess]
    rw [run_bind_of_ok (show kind.run (unscoped d depth) = .ok d.current.kind (unscoped d depth) from rfl), hdot]
    dsimp only
    rw [run_bind_of_ok (run_advance (w := unscoped d depth) hd)]
    exact hmember
  show (primary s (run s k) >>= attached s (run s k)).run (unscoped c depth) = _
  rw [run_bind_of_ok hprimary]
  -- Nothing is attached at the end of the text.
  exact run_afterFirst_of_stop (r := operand) (v := unscoped f depth)
    (stops_finish operand (c := f) hf operand (.refl _)) 0

/-- **The full name of a type with a static member behind it is an operand** of the type of the member. -/
theorem readsIn_static (hr : s.registry.Built) (hcontext : s.registry.Admits s.context)
    (h : NamedInFull s t path) (hjoined : Joined (path ++ [t.name]) text) {name : String}
    (hname : ReadAfterDot name) (hsize : Text.byteSize text ≤ size)
    (hread : Cursor.read size previous start (text ++ '.' :: name.toList) = .ok c) {m : FoundMember}
    {type : TypeDef} (hfound : s.registry.findMember? t (plainName name) .ofType s.parsing.ignoreCase = some m)
    (htype : s.registry.get? m.type = some type) :
    ∃ f, f.current.isFinish = true ∧
      ReadsIn (1 + operand.height) s [] operand c { type, name := some m.name } f := by
  have hmore : EndsName ('.' :: name.toList) := endsName_joint (.inl rfl)
  obtain ⟨c', hread', hopens⟩ := opensName_of_fullName h hjoined hmore size previous start
  obtain rfl : c = c' := Except.ok.inj (hread.symm.trans hread')
  -- The walk stands on the first word, and later on the dot, on the name of the member and at the end.
  let offset := start + Text.byteSize text
  let d : Cursor := ⟨size, offset + 1, name.toList, ⟨.dot, ".", offset⟩⟩
  let e : Cursor := ⟨size, offset + 1 + name.utf8ByteSize, [], ⟨.identifier, name, offset + 1⟩⟩
  let f : Cursor := ⟨size, offset + 1 + name.utf8ByteSize, [], .finish (offset + 1 + name.utf8ByteSize)⟩
  have hd : d.next = .ok e := hname.read size (offset + 1)
  have he : e.next = .ok f := rfl
  exact ⟨f, rfl, readsIn_of_typeName hopens
    (fun _ => run_typeName_of_fullName hr hcontext h hjoined hmore hsize hread rfl) rfl hd rfl he rfl hfound htype⟩

/-- A text that the outermost rule reads as an operand has its type. -/
theorem compile_of_readsIn {text : String} {a : Operand} {f : Cursor} (hopen : Cursor.open? text.toList = .ok c)
    (hf : f.current.isFinish = true) (hreads : ReadsIn (1 + conditional.height) s [] conditional c a f) :
    s.compile text = .ok a.type := by
  have hbudget : 1 + conditional.height ≤ budget := by decide
  have hnesting : 0 + (1 + conditional.height) ≤ Limits.nesting := by decide
  have hrun := hreads budget ⟨c, 0, []⟩ rfl rfl hbudget hnesting
  exact compile_eq_ok_iff.2 ⟨_, ⟨c, _, hopen, hrun, hf⟩, rfl⟩

/-- A text for which the outermost rule fails is refused in the same way. -/
theorem compile_of_failsIn {text : String} {failure : Failure} (hopen : Cursor.open? text.toList = .ok c)
    (hfails : FailsIn (1 + conditional.height) s [] conditional c failure) : s.compile text = .error failure := by
  have hbudget : 1 + conditional.height ≤ budget := by decide
  have hnesting : 0 + (1 + conditional.height) ≤ Limits.nesting := by decide
  obtain ⟨u, hrun⟩ := hfails budget ⟨c, 0, []⟩ rfl rfl hbudget hnesting
  unfold Setting.compile Setting.typeOf
  rw [hopen]
  generalize run s budget .conditional = x at hrun ⊢
  simp only [hrun]

/-- A text that is one operand, which starts with a name, has its type. -/
theorem compile_of_operand {text : String} {a : Operand} {f : Cursor} (hopen : Cursor.open? text.toList = .ok c)
    (hname : c.current.kind = .identifier) (hf : f.current.isFinish = true)
    (hreads : ReadsIn (1 + operand.height) s [] operand c a f) : s.compile text = .ok a.type := by
  have hsign : NoSign c := by
    rw [NoSign, Cursor.isWord_of_open hopen (by decide), Cursor.isAny, hname]
    rfl
  exact compile_of_readsIn hopen hf
    (hreads.outward (operand_inner conditional) (stops_finish _ hf) fun _ => hsign)

end Rule

/-! ## §5. Every accessible type. -/

/-- **Every accessible type can be named in full.**  Where its name, with a dot or a plus between its words,
stands before a dot or a parenthesis, the walk goes past the name and no farther, and has the type.  In a
valid registry each static member that the type has then has its own type after it. -/
theorem full_name (s : Setting) {t : TypeDef} {path : List String} (hr : s.registry.Built)
    (hcontext : s.registry.Admits s.context) (h : NamedInFull s t path) :
    (∀ text more, Joined (path ++ [t.name]) text → (∃ rest, more = '.' :: rest ∨ more = '(' :: rest) →
      ∀ (w : ScopedWalk) size previous start, Text.byteSize text ≤ size →
        Cursor.read size previous start (text ++ more) = .ok w.cursor →
          ∃ d, Cursor.read size (some .identifier) (start + Text.byteSize text) more = .ok d ∧
            (Rule.typeName s).run w = .ok (some t) (w.moved d)) ∧
    (s.registry.validate = .ok () → (∀ name ∈ s.context.mentions, (s.registry.get? name).isSome = true) →
      ∀ name m, ReadAfterDot name →
        s.registry.findMember? t (plainName name) .ofType s.parsing.ignoreCase = some m →
          ∃ type, s.registry.get? m.type = some type ∧ s.compile (t.fullName ++ "." ++ name) = .ok type) := by
  constructor
  · intro text more hjoined hopens w size previous start hsize hread
    obtain ⟨hmore, d, hnext⟩ := Rule.read_opens hopens size (some .identifier) (start + Text.byteSize text)
    exact ⟨d, hnext, Rule.run_typeName_of_fullName hr hcontext h hjoined hmore hsize hread hnext⟩
  -- The type of a member is one that the owner mentions, which validation has found.
  · intro hvalid hmentions name m hname hfound
    obtain ⟨type, htype⟩ := Rule.get?_of_findMember? hr hvalid hmentions h.accessible hfound
    refine ⟨type, htype, ?_⟩
    have hjoined : Joined (path ++ [t.name]) t.fullName.toList := by
      rw [h.fullName_eq]
      exact joined_dotted (by simp)
    have htext : (t.fullName ++ "." ++ name).toList = t.fullName.toList ++ '.' :: name.toList := by simp
    have hmore : EndsName ('.' :: name.toList) := endsName_joint (.inl rfl)
    obtain ⟨c, hread, hopens⟩ := Rule.opensName_of_fullName h hjoined hmore
      (Text.byteSize (t.fullName.toList ++ '.' :: name.toList)) none 0
    have hopen : Cursor.open? (t.fullName ++ "." ++ name).toList = .ok c := by
      rw [Cursor.open?, htext]
      exact hread
    obtain ⟨f, hf, hreads⟩ := Rule.readsIn_static hr hcontext h hjoined hname (by simp) hread hfound htype
    exact Rule.compile_of_operand hopen (hopens 0).1 hf hreads

/-- A type in a namespace of two words, with a static member. -/
def receipt : TypeDef := { name := "Receipt", space := "Shop.Sales", properties := [⟨"Count", Known.int32, true⟩] }

/-- A setting in which every expression may name receipts. -/
def ofReceipts : Setting :=
  ⟨.performAll .empty [.register receipt, .expose "Shop.Sales.Receipt"], {}, Predefined.objectType⟩

/-- The walk on the first word of `Shop+Sales.Receipt(`. -/
def onReceipt : ScopedWalk := ⟨⟨19, 4, "+Sales.Receipt(".toList, ⟨.identifier, "Shop", 0⟩⟩, 0, []⟩

/-- The name of receipts before a parenthesis, and how many there are. -/
theorem full_name_of_receipt :
    NamedInFull ofReceipts receipt ["Shop", "Sales"] ∧
      (Rule.typeName ofReceipts).run onReceipt =
        .ok (some receipt) (onReceipt.moved ⟨19, 19, [], ⟨.openParen, "(", 18⟩⟩) ∧
      ofReceipts.compile "Shop.Sales.Receipt.Count" = .ok (Operand.predefined Known.int32).type := by
  have hr : ofReceipts.registry.Built := Registry.Built.empty.performAll
  have hcontext : ofReceipts.registry.Admits ofReceipts.context :=
    hr.admits (Registry.knows_predefined (by decide))
  have hnamed : NamedInFull ofReceipts receipt ["Shop", "Sales"] := by
    refine ⟨by decide +kernel, by decide, ?_, by decide, by decide, ?_, by decide +kernel⟩
    · intro word hword
      have hwords : word = "Shop" ∨ word = "Sales" ∨ word = "Receipt" := by simpa [receipt] using hword
      rcases hwords with rfl | rfl | rfl <;> exact ⟨rfl, by decide⟩
    -- Every beginning of the path is one of three, none of which names a type.
    · intro front hfront
      have hall : ∀ n < 3, ["Shop", "Sales"].take n ≠ [] →
          Known.ofKeyword? (dotted (["Shop", "Sales"].take n)) = none ∧
            ofReceipts.registry.findAccessible? (dotted (["Shop", "Sales"].take n))
              (some ofReceipts.context) = none := by decide +kernel
      rw [List.prefix_iff_eq_take.1 hfront]
      exact hall front.length (Nat.lt_succ_of_le hfront.length_le)
  obtain ⟨hpast, hstatic⟩ := full_name ofReceipts hr hcontext hnamed
  refine ⟨hnamed, ?_, ?_⟩
  · have hjoined : Joined ["Shop", "Sales", "Receipt"] "Shop+Sales.Receipt".toList :=
      .joint "Shop" (.inr rfl) (.joint "Sales" (.inl rfl) (.last "Receipt"))
    obtain ⟨d, hd, hrun⟩ := hpast _ _ hjoined ⟨[], .inr rfl⟩ onReceipt 19 none 0 (by decide) rfl
    cases hd
    exact hrun
  · obtain ⟨type, htype, hcompile⟩ := hstatic rfl (by decide +kernel) "Count" _ rfl rfl
    rw [show ofReceipts.registry.get? Known.int32 = some (Operand.predefined Known.int32).type from rfl] at htype
    cases htype
    exact hcompile

end Typing

end TypeAhead
