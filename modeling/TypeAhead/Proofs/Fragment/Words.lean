/-
  TypeAhead.Proofs.Fragment.Words — THE WORDS `in` AND `as` AFTER AN OPERAND.

  To the scanner `in` and `as` are names like any other.  After an operand they are
  operators, unless a chain of names is open before them: it takes the word for one
  more name.  So the fragment after the word is found exactly where no chain is open,
  or, for `as`, where the chain does not end in a name, as then the next name is taken
  for the alias that follows.

      operator_words    the answer after `in`, and after `as` in a creation
-/
import TypeAhead.Proofs.Fragment.Context
import TypeAhead.Proofs.Fragment.FirstOperand

namespace TypeAhead.Fragment

open Walker

/-! ## §1. Words. -/

/-- The characters are a word that stands for no symbol. -/
structure PlainWord (first : Char) (cs : List Char) : Prop where
  starts : Scan.startsWord first = true
  symbol : ∀ next, Scan.symbol? first next = none
  quote : first ≠ '"' ∧ first ≠ '\''
  blank : Text.isBlank first = false
  chars : ∀ c ∈ cs, Text.isWordChar c = true
  length : (first :: cs).length ≤ Limits.identifierLength
  kind : TokenKind.ofWord? (String.ofList (first :: cs)) = none

variable {first : Char} {cs : List Char}

/-- A word is a name, wherever it stands, if nothing after it goes on with it. -/
theorem PlainWord.token (h : PlainWord first cs) {more : List Char}
    (hmore : ∀ c ∈ more.head?, Text.isWordChar c = false) (previous : Option TokenKind) (start : Nat) :
    Scan.token previous start (first :: (cs ++ more)) =
      .ok (⟨.identifier, String.ofList (first :: cs), start⟩, more) := by
  have hkind : Scan.wordKind previous (String.ofList (first :: cs)) = .identifier := by
    rw [Scan.wordKind, h.kind]
    split <;> rfl
  have htake : (cs ++ more).takeWhile Text.isWordChar = cs := Scan.takeWhile_run h.chars hmore
  have hread : Scan.word previous start first (cs ++ more) = .ok (.identifier, first :: cs) :=
    Scan.word_eq_ok_iff.2 ⟨hkind.symm, by rw [htake], h.length⟩
  have hlexeme : Scan.lexeme previous start first (cs ++ more) = .ok (.identifier, first :: cs) :=
    Scan.lexeme_eq_iff.2 (.word (h.symbol _) (not_or.2 h.quote) h.starts hread)
  rw [Scan.token_of_lexeme h.blank hlexeme, ← List.cons_append, List.drop_left]

/-- So is a word before a blank. -/
theorem PlainWord.token_blank (h : PlainWord first cs) (previous : Option TokenKind) (start : Nat)
    (rest : List Char) : Scan.token previous start (first :: (cs ++ ' ' :: rest)) =
      .ok (⟨.identifier, String.ofList (first :: cs), start⟩, ' ' :: rest) := by
  refine h.token ?_ previous start
  rintro _ ⟨⟩
  rfl

/-- A word with a blank on either side is a name. -/
theorem PlainWord.spells (h : PlainWord first cs) :
    Spells (' ' :: (first :: cs) ++ [' ']) .identifier (String.ofList (first :: cs)) := by
  have hblanks : ∀ e ∈ [' '], Text.isBlank e = true := List.all_eq_true.1 rfl
  refine ⟨⟨' ', _, rfl, by decide⟩, by decide, 1, [' '], hblanks, ?_, fun previous start rest => ?_⟩
  · rw [Text.utf8ByteSize_ofList, Text.byteSize_append, Text.byteSize_cons]
    rfl
  · have hfront : ' ' :: (first :: cs) ++ [' '] ++ rest = [' '] ++ first :: (cs ++ ' ' :: rest) := by simp
    rw [hfront, Scan.token_blank hblanks]
    exact h.token_blank previous _ rest

theorem plainWord_in : PlainWord 'i' ['n'] :=
  ⟨rfl, fun _ => rfl, by decide, rfl, List.all_eq_true.1 rfl, by decide, rfl⟩

theorem plainWord_as : PlainWord 'a' ['s'] :=
  ⟨rfl, fun _ => rfl, by decide, rfl, List.all_eq_true.1 rfl, by decide, rfl⟩

theorem plainWord_new : PlainWord 'n' ['e', 'w'] :=
  ⟨rfl, fun _ => rfl, by decide, rfl, List.all_eq_true.1 rfl, by decide, rfl⟩

theorem spells_in : Spells " in ".toList .identifier "in" := plainWord_in.spells

theorem spells_as : Spells " as ".toList .identifier "as" := plainWord_as.spells

theorem spells_comma : Spells ", ".toList .comma "," :=
  ⟨⟨',', _, rfl, by decide⟩, by decide, 0, [' '], List.all_eq_true.1 rfl, by decide, fun _ _ _ => rfl⟩

namespace Rule

variable {parsing : Parsing} {text : List Char} {budget : Nat} {call : Rule → Locator Unit}
  {rule sub : Rule} {test : Cursor → Bool} {after : Located → Located} {w u v : Walk (List Nat)}
  {o : Located} {start shift : Nat} {c d : Cursor}

/-! ## §2. After `in`. -/

/-- The rules that bind tighter than a containment. -/
def tight : Rule → Bool
  | conditional | coalescing | projection | disjunction | conjunction | containment => false
  | _ => true

/-- Around a rule that binds tighter than a containment stands a containment or another one. -/
theorem Frame.tight (h : Frame call rule sub test after) (hsub : sub.tight = true) :
    rule = containment ∨ rule.tight = true := by
  cases h with
  | operators _ h => cases rule <;> cases h <;> simp_all [Rule.tight]
  | last h => cases rule <;> cases sub <;> simp_all [endsWith, Rule.tight]
  | _ => simp_all [Rule.tight]

/-- The operand of a containment settles where it does by itself. -/
theorem settled_operand (h : StaysOpen parsing c start) (halike : Alike text [] shift c w.cursor)
    (budget : Nat) : Settled (start + shift) ((run parsing budget operand).run w) := by
  obtain ⟨budget', w', v, rfl, hheld, hrun, hfinish, hstack⟩ := h
  have hpaired : (within text [] shift w.held follows_nil).Paired w' w :=
    ⟨halike, [], rfl, by rw [hheld]; exact .nil⟩
  exact settled_of_locked ((inStep_run _ parsing budget' budget).enter hpaired (by decide)) hrun hfinish
    (by rw [hstack]; rfl)

/-- Past `in` a name is taken for an operand. -/
theorem run_container_of_in (hkind : w.cursor.current.kind = .identifier)
    (htext : w.cursor.current.text = "in") (hnext : w.cursor.next = .ok d)
    (hname : d.current.kind = .identifier) :
    (container call).run w = (call operand).run { w with cursor := d } := by
  have honly : (fun _ : Cursor => w.cursor.current.text == "not" ||
      w.cursor.current.kind == .exclamation) w.cursor = false := by
    simp [htext, hkind]
  have hoperator : (containmentOperator w.cursor.current).run w = .ok () { w with cursor := d } := by
    show ((onlyIf _ _).run w).andThen (fun _ => advance) = _
    rw [run_onlyIf_of_not honly]
    exact run_advance hnext
  show ((containmentOperator w.cursor.current).run w).andThen _ = _
  rw [hoperator]
  exact run_kind (w := { w with cursor := d }) hname _

/-- At `in`, a containment catches the word. -/
theorem settled_containerLoop (h : StaysOpen parsing c start)
    (hkind : w.cursor.current.kind = .identifier) (htext : w.cursor.current.text = "in")
    (hnext : w.cursor.next = .ok d) (halike : Alike text [] shift c d)
    (hname : c.current.kind = .identifier) (k : Option Nat) :
    Settled (start + shift)
      ((goOn startsContainment (container (run parsing budget)) k).run w) := by
  have htest : startsContainment w.cursor = true := by
    simp [startsContainment, Cursor.isOneOf, hkind, htext]
  rcases run_goOn_of_test (container (run parsing budget)) k htest with hdeep | ⟨k', hrun⟩
  · exact .inl hdeep
  rw [hrun, run_container_of_in hkind htext hnext (halike.kind_eq.trans hname)]
  exact (settled_operand (w := { w with cursor := d }) h halike budget).andThen
    fun _ => halts_goOn _ _ fun _ => startsContainment_finish

/-- What may become of a rule at `in`, where no chain of names is open: a containment has caught it, or
the rule binds tighter and has left it. -/
inductive Contained (start : Nat) (u : Walk (List Nat)) (rule : Rule) : Located → Prop where
  | settled {o : Located} (h : Settled start o) : Contained start u rule o
  | passed {v : Walk (List Nat)} (hrule : rule.tight = true) (hv : v.cursor = u.cursor) :
      Contained start u rule (.ok () v)

/-- **Where no chain of names is open, the innermost containment catches `in`.** -/
theorem contained_of_ends (hP : StaysOpen parsing c start) (hname : c.current.kind = .identifier)
    {P : List Char} (hchain : ¬ ∃ kind, ChainEnds text kind)
    (hkind : u.cursor.current.kind = .identifier) (htext : u.cursor.current.text = "in")
    (hnext : u.cursor.next = .ok d) (halike : Alike P [] shift c d)
    (h : Ends parsing text u budget rule o) : Contained (start + shift) u rule o := by
  -- By induction on the frames: the first containment around the point takes the word.
  induction h with
  | @point budget rule rest h =>
    -- At the point itself only a chain of names or a containment does anything with a word.
    have hpass : rule.tight = true → rule ≠ nameChain → Contained (start + shift) u rule (rest u) := by
      intro hrule hnot
      rcases h.pass (u := u) (by rw [hkind]; decide) (fun h => absurd h hnot)
        (fun h => by rw [h] at hrule; cases hrule) with hdeep | hok
      · exact .settled (.inl hdeep)
      · rw [hok]
        exact .passed hrule rfl
    cases h with
    | @closed rule h => exact hpass (by cases rule <;> simp_all [closes, Rule.tight]) (by rintro rfl; cases h)
    | literals => exact hpass rfl (by decide)
    | named => exact hpass rfl (by decide)
    | joint _ _ h => exact absurd ⟨_, h⟩ hchain
    | linked _ h => exact absurd ⟨_, h⟩ hchain
    | listed k => exact .settled (settled_containerLoop hP hkind htext hnext halike hname (some k))
  | @within budget rule sub test after o h _ ih =>
    cases ih with
    | settled hsettled => exact .settled (h.settled hsettled)
    | @passed v hsub hv =>
      rcases h.tight hsub with rfl | hrule
      · cases h with
        | container k =>
          exact .settled (settled_containerLoop hP (hv ▸ hkind) (hv ▸ htext) (hv ▸ hnext) halike hname k)
        | operators _ h => cases h
        | last h => cases h
      -- A frame that is tighter than a containment does not go on at `in`.
      · have htest : test v.cursor = false := by
          rw [hv]
          exact h.test_of_not (by rw [hkind]; decide) (by rw [Cursor.isWord, hkind, htext]; decide)
            (fun heq => by rw [heq] at hrule; cases hrule)
            fun _ => by simp [isAttached, Cursor.isAny, hkind]
        rcases h.pass htest with hdeep | ⟨v', hv', hcursor, -⟩
        · exact .settled (.inl hdeep)
        · rw [hv']
          exact .passed hrule (hcursor.trans hv)

/-- A whole expression leaves `in` to no others. -/
theorem Contained.of_conditional (h : Contained start u conditional o) : Settled start o := by
  cases h with
  | settled h => exact h
  | passed hrule => cases hrule

/-- A chain that is open at the end of a text is open there in a longer one as well. -/
theorem ChainEnds.reaches {longer more : List Char} {before : List TokenKind} {kind : TokenKind}
    (h : ChainEnds text kind) (hmore : Follows more) (hne : more ≠ [])
    (hopen : Cursor.open? text = .ok c) (hd : Reaches longer before d)
    (halike : Alike text more shift c d) : ∃ past d', Reaches longer (kind :: past) d' ∧
      endsInChain (kind :: past) = true ∧ AtEdge text more shift d' := by
  obtain ⟨past, c', hreached, hfinish, hchain⟩ := h
  obtain ⟨d', hd', halike' | ⟨-, -, hedge⟩⟩ := reaches_within hmore hopen hd halike hreached
  · cases (halike'.finish hne).symm.trans hfinish
  · exact ⟨past ++ before, d', hd', endsInChain_append hchain before, hedge⟩

end Rule

variable {parsing : Parsing} {A P : String} {startsA : List Nat} {c : Cursor}

/-- The walk of the text stops for being too deep. -/
def StopsTooDeep (parsing : Parsing) (text : String) : Prop :=
  ∃ r position, locate parsing text = .ok r ∧ r.stoppedBy = some ⟨.tooDeep, position⟩

/-- A text of which the first operand is open at its end starts with that. -/
theorem Completes.start_eq_zero (h : Completes parsing P [0]) (hopen : Cursor.open? P.toList = .ok c) :
    c.current.start = 0 := by
  obtain ⟨c', w, hopen', hwalk, -, hheld⟩ := h
  cases hopen.symm.trans hopen'
  obtain ⟨past, d, hreached, hstart, -⟩ :=
    ((sound_reader parsing hopen).ok hwalk).opened 0 (hheld ▸ List.mem_cons_self)
  cases hreached with
  | first hopen' =>
    cases hopen.symm.trans hopen'
    exact hstart
  | next hreached hc hnext =>
    have hlt := (Reaches.first hopen).start_lt (hreached.next hc hnext) (Nat.zero_lt_succ _)
    omega

/-- After `in` where no chain of names is open. -/
theorem locates_after_in (hA : Completes parsing A startsA) (hP : Completes parsing P [0])
    (hopen : Cursor.open? P.toList = .ok c) (hname : c.current.kind = .identifier)
    (hchain : ¬ ∃ kind, Rule.ChainEnds A.toList kind) :
    Locates parsing (A ++ " in " ++ P) (A ++ " in ").utf8ByteSize := by
  obtain ⟨d, hd, hdeep | ⟨u, d', _, hkind, htext, hnext, halike, -, -, hends⟩⟩ := hA.edge spells_in hopen
  · exact locates_of_settled hd (.inl hdeep)
  have hnot : c.isWord "not" = false := Cursor.isWord_of_open hopen (by decide)
  have hsign : Rule.isSign c = false := by simp [Rule.isSign, Cursor.isAny, hname, hnot]
  have hstay := hP.staysOpen hopen hsign (Nat.zero_le _)
  have hcontained := Rule.contained_of_ends hstay hname hchain hkind htext hnext halike hends
  exact locates_of_settled hd (Nat.zero_add (A ++ " in ").utf8ByteSize ▸ hcontained.of_conditional)

/-- After `in` where a chain of names is open: no operand is opened there. -/
theorem start_ne_of_chain (hA : Completes parsing A startsA) (hP : Completes parsing P [0])
    {kind : TokenKind} (hchain : Rule.ChainEnds A.toList kind) {r : Fragment}
    (hr : locate parsing (A ++ " in " ++ P) = .ok r) : r.start ≠ (A ++ " in ").utf8ByteSize := by
  intro hstart
  obtain ⟨c, hopen⟩ := hP.opens
  obtain ⟨cA, hopenA⟩ := hA.opens
  have htext : (A ++ " in " ++ P).toList = A.toList ++ (" in ".toList ++ (P.toList ++ [])) := by simp
  have hsize : (A ++ " in ").utf8ByteSize = Text.byteSize A.toList + Text.byteSize " in ".toList := by
    rw [Text.byteSize_toList, Text.byteSize_toList, String.utf8ByteSize_append]
  have hmore := spells_in.follows (P.toList ++ [])
  obtain ⟨d, hd, halike⟩ := open_before hmore hopenA fun _ => hA.isFinish_of_open hopenA
  rw [← htext] at hd
  -- The first token of `P` comes after the chain and after `in`, which is a name.
  obtain ⟨past, d₁, hd₁, hpast, size, previous, hread⟩ :=
    hchain.reaches hmore (by simp) hopenA (.first hd) halike
  obtain ⟨hkind, -, d₂, hnext, halike₂⟩ := spells_in.read follows_nil hopen (fun h => absurd rfl h) hread
  have hd₂ := hd₁.next (by rw [Token.isFinish, hkind]; rfl) hnext
  have hstart₂ : d₂.current.start = (A ++ " in ").utf8ByteSize := by
    rw [halike₂.start_eq, hP.start_eq_zero hopen, hsize]
    omega
  -- The fragment starts with the text, or at an operand that is open.
  rcases start_of_locate hr with hzero | ⟨d', hd', hmem⟩
  · have hfour : Text.byteSize " in ".toList = 4 := rfl
    omega
  · cases hd.symm.trans hd'
    -- An operand cannot open behind a chain of names.
    obtain ⟨past', c', hc', hstart', hopenable⟩ := (sound_walk parsing hd).opened _ hmem
    obtain ⟨rfl, -⟩ := hc'.unique hd₂ (by rw [hstart', hstart, hstart₂])
    have hclosed := hopenable.word _ (by rw [hkind])
    rw [hpast] at hclosed
    cases hclosed

end TypeAhead.Fragment
