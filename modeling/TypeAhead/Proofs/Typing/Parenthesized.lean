/-
  TypeAhead.Proofs.Typing.Parenthesized — PARENTHESES MAKE NO DIFFERENCE.

  What a rule reads as an operand, it reads as the same operand where it stands in
  parentheses.  Inside of them the rule comes to the same up to the closing
  parenthesis, where no looser rule goes on; so all of what they enclose is that
  operand.  Behind them the rule is at its end, unless it goes on with what is there.

  Where the grammar looks at a token by itself, a parenthesis does make a difference:
  after `in` it starts a list.

      comes_inside              what comes to the end of its tokens, before a parenthesis
      reads_parenthesized       a rule, at an operand in parentheses
      compile_parenthesized     a text in parentheses
-/
import TypeAhead.Proofs.Typing.Brackets
import TypeAhead.Proofs.Typing.Outward
import TypeAhead.Proofs.Walk.Parentheses

namespace TypeAhead.Typing

open Walker Text

namespace Rule

variable {s : Setting} {v w : ScopedWalk} {r : Rule} {a : Operand}
  {c d e f : Cursor} {held : List Scope}

/-! ## §1. Parentheses. -/

/-- **What stands between parentheses is an operand**, and the rule goes on behind them. -/
theorem begins_parenthesized (hopens : d.current.kind = .openParen) (hnext : d.next = .ok c)
    (hinside : Reads s held conditional c a e) (hcloses : e.current.kind = .closeParen)
    (hnext' : e.next = .ok f) : Begins s held d a f := by
  apply begins_of_primary
  intro k v hv hheld
  apply comes_lookThen
  rw [show v.cursor.current.kind = .openParen from hv ▸ hopens]
  apply comes_bind (comes_advance (show v.cursor.next = .ok c from hv ▸ hnext))
  apply comes_bind (hinside k (v.moved c) rfl hheld)
  exact comes_bind (comes_expect hcloses hnext') (comes_pure a _)

/-- The rule has come to the cursor, or to the end of the text, where the cursor is as well. -/
def EndsAt (u : ScopedWalk) (e : Cursor) : Prop :=
  u.cursor = e ∨ u.cursor.current.isFinish = true ∧ e.current.isFinish = true

/-- **What comes to the end of its tokens comes to the same where a closing parenthesis follows them.** -/
theorem comes_inside {α : Type} {x y : Typer α} {past : Nat} {a : α} {g : Cursor} {u : ScopedWalk}
    (halong : Along e g w.cursor v.cursor) (hcloses : g.current.kind = .closeParen) (hheld : v.held = w.held)
    (hcopies : ∀ p : Enclosure .bracket false, p.Twin w v → p.Copies past 0 x y w v) (hkeeps : Keeps y)
    (hrun : x.run w = .ok a u) (hends : EndsAt u e) : Comes y v a g := by
  -- The walk does not go past the end of the text, where the parenthesis is in the longer one.
  have hlevel : e.ahead ≤ u.cursor.ahead := by
    rcases hends with hu | ⟨-, he⟩
    · rw [hu]
    · simp [Cursor.ahead, he]
  have htwin : (enclosed e g hcloses halong.text_of_finish).Twin w v :=
    ⟨halong, hheld, fun hexact => absurd hexact Bool.false_ne_true⟩
  obtain ⟨-, hsame⟩ := hcopies _ htwin a u hrun
  rcases hsame hlevel with ⟨-, hdeep⟩ | ⟨t, hrun', hplace, -⟩
  · exact .inl hdeep
  · have hcursor : t.cursor = g := by
      rcases hplace with hbefore | ⟨-, ht⟩
      · -- Before the edge there are tokens left.
        have hbefore : Along e g u.cursor t.cursor := hbefore
        rcases hends with hu | ⟨hu, -⟩
        · rw [hu] at hbefore
          exact absurd hbefore.ahead_lt (Nat.lt_irrefl _)
        · exact absurd (hbefore.isFinish_eq.1.symm.trans hu) Bool.false_ne_true
      · exact ht
    -- A walk that gives back depth and scopes is known by where it ends.
    have hmoved := hkeeps v
    rw [hrun'] at hmoved
    refine .inr ?_
    rw [hrun', ← hcursor]
    exact congrArg _ hmoved

/-- A rule comes to the same inside. -/
theorem reads_inside {g : Cursor} {k : Nat} {u : ScopedWalk} (halong : Along e g w.cursor c)
    (hcloses : g.current.kind = .closeParen) (hrun : (run s k r).run w = .ok a u) (hends : EndsAt u e) :
    Reads s w.held r c a g := by
  intro k' v hv hheld
  have hcopies : ∀ p : Enclosure .bracket false, p.Twin w v → p.Copies 1 0 (run s k r) (run s k' r) w v :=
    fun _ htwin => copies_run s (by decide) (fun h => Bool.noConfusion h) r htwin.pair
  exact comes_inside (hv ▸ halong) hcloses hheld hcopies (keeps_of_follows (follows_run scopeCourse s k' r)) hrun hends

/-- **What a rule reads as an operand, it reads as the same operand in parentheses.** -/
theorem reads_parenthesized {k : Nat} {u : ScopedWalk} (hsign : r = operand → NoSign w.cursor)
    (hparen : Parenthesized w.cursor e d f) (hstops : r.Stops f) (hrun : (run s k r).run w = .ok a u)
    (hends : EndsAt u e) : Reads s w.held r d a f := by
  obtain ⟨hopens, c, g, hnext, halong, hcloses, hnext'⟩ := hparen
  have hsign' : r = operand → NoSign c := by
    intro hr
    obtain ⟨hkind, htext⟩ := Prod.mk.inj halong.face_eq
    have hany : c.isAny [.minus, .exclamation] = w.cursor.isAny [.minus, .exclamation] :=
      Fragment.readsToken_isAny _ _ _ hkind htext
    have hword : c.isWord "not" = w.cursor.isWord "not" := Fragment.readsToken_isWord _ _ _ hkind htext
    rw [NoSign, hany, hword]
    exact hsign hr
  have hinside : Reads s w.held conditional c a g :=
    (reads_inside halong hcloses hrun hends).outward (inner_conditional r) (stops_closeParen _ hcloses) hsign'
  have hoperand : Reads s w.held operand d a f :=
    (begins_parenthesized hopens hnext hinside hcloses hnext').reads (hstops operand (operand_inner r))
  exact hoperand.outward (operand_inner r) hstops fun _ => noSign_of_kind _ hopens (by decide)

end Rule

/-! ## §2. Texts. -/

section

variable {α : Type} {text : String} {y : Nat → Typer α} {a : α} {c : Cursor} {u : ScopedWalk} {n : Nat}

/-- A rule that takes a token and, with any budget, reads what stands before a closing parenthesis as it
reads a text. -/
structure Portable (y : Nat → Typer α) : Prop where
  copies : ∀ (p : Enclosure .bracket false) (k k' : Nat) {w v : ScopedWalk}, p.Twin w v →
    p.Copies 1 0 (y k) (y k') w v
  follows : ∀ k w, bracketCourse.Follows (y k) w
  keeps : ∀ k, Keeps (y k)

theorem portable_run (s : Setting) (r : Rule) : Portable fun k => Rule.run s k r where
  copies _ _ _ _ _ h := Rule.copies_run s (by decide) (fun h => Bool.noConfusion h) r h.pair
  follows k := Rule.follows_run bracketCourse s k r
  keeps k := keeps_of_follows (Rule.follows_run scopeCourse s k r)

/-- **What reads all of a text comes to the same before a closing parenthesis.** -/
theorem Portable.inside (hy : Portable y) (hopen : Cursor.open? text.toList = .ok c)
    (hrun : (y n).run ⟨c, 0, []⟩ = .ok a u) (hfinish : u.cursor.current.isFinish = true) (size start : Nat)
    (more : List Char) : ∃ c' g, Cursor.read size (some .openParen) start (text.toList ++ ')' :: more) = .ok c' ∧
      c'.current.kind = c.current.kind ∧ g.current.kind = .closeParen ∧
      g.next = Cursor.read size none (start + text.utf8ByteSize + 1) more ∧
      ∀ k (v : ScopedWalk), v.cursor = c' → v.held = [] → Comes (y k) v a g := by
  have hread : WellRead c := wellRead_of_read hopen
  obtain ⟨ts, hafter, -⟩ := passable_of_follows (hy.follows n _) hread hrun hfinish
  -- A text that is over has nothing to be read.
  have hc : c.current.isFinish = false := by
    obtain ⟨hpast, -⟩ := hy.copies Enclosure.self n n (Enclosure.twin_self _) a u hrun
    cases hc : c.current.isFinish with
    | false => rfl
    | true => simp [Cursor.ahead, hc] at hpast
  have hdot : some TokenKind.openParen = some .dot ↔ (none : Option TokenKind) = some .dot := by decide
  -- The tokens of the text stand inside the parentheses as they stand alone.
  obtain ⟨c', e, g, hc', halong, he, hcloses, hnext⟩ := along_of_after hafter hc hopen hdot size start more
  rw [Nat.zero_add] at hc' hnext
  rw [byteSize_toList, Cursor.read_previous _ none (by decide)] at hnext
  refine ⟨c', g, hc', (Prod.mk.inj halong.face_eq).1, hcloses, hnext, fun k v hv hheld => ?_⟩
  exact Rule.comes_inside (w := ⟨c, 0, []⟩) (hv ▸ halong) hcloses hheld (fun p h => hy.copies p n k h)
    (hy.keeps k) hrun (.inr ⟨hfinish, he⟩)

end

variable {s : Setting} {text : String} {t : TypeDef} {a : Operand}

/-- All of the text reads as the operand. -/
def Setting.Reads (s : Setting) (text : String) (a : Operand) : Prop :=
  ∃ c u, Cursor.open? text.toList = .ok c ∧
    (Rule.run s Rule.budget .conditional).run ⟨c, 0, []⟩ = .ok a u ∧ u.cursor.current.isFinish = true

/-- The text is refused for being nested too deep. -/
def Setting.TooDeep (s : Setting) (text : String) : Prop :=
  ∃ position, s.compile text = .error (.fault ⟨.tooDeep, position⟩)

/-- The type of a text is that of the operand as which all of it reads. -/
theorem compile_eq_ok_iff : s.compile text = .ok t ↔ ∃ a, s.Reads text a ∧ a.type = t := by
  unfold Setting.compile Setting.typeOf Setting.Reads
  constructor
  · intro h
    split at h
    · cases h
    rename_i c hopen
    split at h
    · cases h
    rename_i a u hrun
    split at h
    · rename_i hfinish
      cases h
      exact ⟨a, ⟨c, u, hopen, hrun, hfinish⟩, rfl⟩
    · cases h
  · rintro ⟨a, ⟨c, u, hopen, hrun, hfinish⟩, rfl⟩
    simp only [hopen, hrun, hfinish, if_true]

/-- A text reads as the operand to which the outermost rule comes. -/
theorem reads_or_tooDeep {d f : Cursor} (hopen : Cursor.open? text.toList = .ok d)
    (hf : f.current.isFinish = true) (h : Comes (Rule.run s Rule.budget .conditional) ⟨d, 0, []⟩ a f) :
    s.Reads text a ∨ s.TooDeep text := by
  unfold Setting.Reads Setting.TooDeep Setting.compile Setting.typeOf
  rw [hopen]
  generalize Rule.run s Rule.budget .conditional = x at h ⊢
  rcases h with ⟨position, v, hdeep⟩ | hrun
  · refine .inr ⟨position, ?_⟩
    simp only [hdeep]
  · exact .inl ⟨d, _, rfl, hrun, hf⟩

/-- Behind the text, a rule goes on with what is attached to the operand as which all of it reads. -/
def Setting.Begins (s : Setting) (text : String) (a : Operand) : Prop :=
  ∀ (more : List Char) (size : Nat) (f : Cursor), Cursor.read size none text.utf8ByteSize more = .ok f →
    ∃ d, Cursor.read size none 0 (text.toList ++ more) = .ok d ∧ Rule.NoSign d ∧ Rule.Begins s [] d a f

/-- **Something may be attached to a text in parentheses.** -/
theorem Setting.Reads.begins (h : s.Reads text a) : s.Begins ("(" ++ text ++ ")") a := by
  obtain ⟨c, u, hopen, hrun, hfinish⟩ := h
  intro more size f hread
  obtain ⟨c', g, hc', -, hcloses, hnext, hinside⟩ :=
    (portable_run s .conditional).inside hopen hrun hfinish size 1 more
  have hbehind : g.next = .ok f := by
    have hsize : 1 + text.utf8ByteSize + 1 = ("(" ++ text ++ ")").utf8ByteSize := by
      simp only [String.utf8ByteSize_append, show "(".utf8ByteSize = 1 from rfl,
        show ")".utf8ByteSize = 1 from rfl]
    rw [hnext, hsize]
    exact hread
  have htext : ("(" ++ text ++ ")").toList ++ more = '(' :: (text.toList ++ ')' :: more) := by
    simp [String.toList_append]
  refine ⟨⟨size, 1, text.toList ++ ')' :: more, ⟨.openParen, "(", 0⟩⟩, ?_,
    Rule.noSign_of_kind .openParen rfl (by decide), Rule.begins_parenthesized rfl hc' hinside hcloses hbehind⟩
  rw [htext]
  rfl

/-- **A text to which nothing more is attached.** -/
theorem Setting.Begins.reads (h : s.Begins text a) : s.Reads text a ∨ s.TooDeep text := by
  obtain ⟨d, hread, hsign, hbegins⟩ := h [] text.utf8ByteSize _ rfl
  rw [List.append_nil, ← byteSize_toList] at hread
  have hreads := (hbegins.reads (Rule.stops_finish .operand rfl _ (.refl _))).outward
    (Rule.operand_inner .conditional) (Rule.stops_finish _ rfl) fun _ => hsign
  exact reads_or_tooDeep hread rfl (hreads _ _ rfl rfl)

/-- **A text in parentheses reads as the same operand.** -/
theorem Setting.Reads.parenthesized (h : s.Reads text a) :
    s.Reads ("(" ++ text ++ ")") a ∨ s.TooDeep ("(" ++ text ++ ")") :=
  h.begins.reads

/-- **Parentheses make no difference.**  A text with a type has it in parentheses, or is too deep there,
and reads as the same operand.  So does a part of a text: what a rule reads as an operand, it reads as the
same operand in parentheses, wherever they stand, if it would not go on behind them. -/
theorem compile_parenthesized (s : Setting) :
    (∀ text t, s.compile text = .ok t → ∃ a, s.Reads text a ∧ a.type = t ∧
      (s.Reads ("(" ++ text ++ ")") a ∧ s.compile ("(" ++ text ++ ")") = .ok t ∨
        s.TooDeep ("(" ++ text ++ ")"))) ∧
    ∀ (r : Rule) (w v : ScopedWalk) (e f : Cursor) (a : Operand) (k k' : Nat),
      Parenthesized w.cursor e v.cursor f → v.held = w.held → (r = .operand → Rule.NoSign w.cursor) →
      r.Stops f → (Rule.run s k r).run w = .ok a (w.moved e) →
      ((Rule.run s k' r).run v).TooDeep ∨ (Rule.run s k' r).run v = .ok a (v.moved f) := by
  constructor
  · intro text t h
    obtain ⟨a, hreads, rfl⟩ := compile_eq_ok_iff.1 h
    refine ⟨a, hreads, rfl, ?_⟩
    rcases hreads.parenthesized with hreads' | hdeep
    · exact .inl ⟨hreads', compile_eq_ok_iff.2 ⟨a, hreads', rfl⟩⟩
    · exact .inr hdeep
  · intro r w v e f a k k' hparen hheld hsign hstops hrun
    exact Rule.reads_parenthesized hsign hparen hstops hrun (.inl rfl) k' v rfl hheld

/-- A setting in which `it` is a text. -/
def ofText : Setting := ⟨.empty, {}, (Operand.predefined Known.string).type⟩

/-- The walk on `2` in `1 + 2`. -/
def onTwo : ScopedWalk := ⟨⟨5, 5, [], ⟨.integerLiteral, "2", 4⟩⟩, 0, []⟩

/-- The walk on the parenthesis in `1 + (2)`. -/
def onParenthesis : ScopedWalk := ⟨⟨7, 5, ['2', ')'], ⟨.openParen, "(", 4⟩⟩, 0, []⟩

/-- A sum in parentheses, and its second operand in parentheses. -/
theorem compile_parenthesized_of_sum :
    (∃ t, ofText.compile "1 + 2" = .ok t ∧
      (ofText.compile "(1 + 2)" = .ok t ∨ ofText.TooDeep "(1 + 2)")) ∧
    ∃ a, (Rule.run ofText 20 .product).run onTwo = .ok a (onTwo.moved ⟨5, 5, [], .finish 5⟩) ∧
      (((Rule.run ofText 20 .product).run onParenthesis).TooDeep ∨
        (Rule.run ofText 20 .product).run onParenthesis =
          .ok a (onParenthesis.moved ⟨7, 7, [], .finish 7⟩)) := by
  constructor
  · have h : ofText.compile "1 + 2" = .ok _ := rfl
    obtain ⟨a, -, -, hparen⟩ := (compile_parenthesized ofText).1 _ _ h
    exact ⟨_, h, hparen.imp_left And.right⟩
  · have hparen : Parenthesized onTwo.cursor ⟨5, 5, [], .finish 5⟩ onParenthesis.cursor ⟨7, 7, [], .finish 7⟩ :=
      ⟨rfl, _, _, rfl, .last rfl rfl rfl rfl, rfl, rfl⟩
    have hrun : (Rule.run ofText 20 .product).run onTwo = .ok _ (onTwo.moved ⟨5, 5, [], .finish 5⟩) := rfl
    exact ⟨_, hrun, (compile_parenthesized ofText).2 .product onTwo onParenthesis _ _ _ 20 20 hparen rfl nofun
      (Rule.stops_finish _ rfl) hrun⟩

/-- To the right of `in`, a parenthesis starts a list: a text has characters in it, but `'a' in (it)`
compares a character with the text itself. -/
theorem not_compile_parenthesized :
    ofText.compile "'a' in it" = .ok (Operand.predefined Known.boolean).type ∧
      ofText.compile "'a' in (it)" ≠ .ok (Operand.predefined Known.boolean).type ∧
      ¬ ofText.TooDeep "'a' in (it)" := by
  have hlist : ofText.compile "'a' in (it)" =
      .error (.fault ⟨.incompatibleOperands "in" "Char" "String", 4⟩) := by decide +kernel
  refine ⟨by decide +kernel, ?_, ?_⟩
  · rw [hlist]
    exact nofun
  · rintro ⟨position, hdeep⟩
    rw [hlist] at hdeep
    cases hdeep

end TypeAhead.Typing
