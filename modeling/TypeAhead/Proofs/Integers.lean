/-
  TypeAhead.Proofs.Integers — INTEGERS FROM THE SCAN TO THEIR TYPES.

  An integer of a text has the first type that holds its value, of those that its suffix
  leaves open; if an operand starts with a minus and an integer is behind it, the minus
  is part of the integer.  Typing refuses an integer that no type holds, wherever it
  stands, and it calls nothing else an invalid integer.

      integerType?_of_token     the integers that the scan reads
      countCourse               every rule goes only past integers that have a type
      fails_unary, reads_unary  an operand that is an integer
      integer_types             all of it
-/
import TypeAhead.Proofs.Literal.Numbers
import TypeAhead.Proofs.Typing.Confinement
import TypeAhead.Proofs.Typing.FullName

namespace TypeAhead

open Text Scan Literal Walker

/-! ## §1. The integers that the scan reads. -/

/-- **An integer has the first type that holds its value**, with a minus before it or not. -/
theorem integerType?_of_token {previous : Option TokenKind} {start : Nat} {cs rest : List Char} {t : Token}
    (h : Scan.token previous start cs = .ok (t, rest)) (hkind : t.kind = .integerLiteral) :
    ∃ n suffix, WritesInteger t.text.toList n suffix ∧
      integerType? t.text = (openTypes false suffix).find? (holds n) ∧
      ∀ minus, integerType? (t.negated minus).text = (openTypes true suffix).find? (holds (-n)) := by
  have hnumeral := numeral_of_token h (by rw [hkind]; rfl)
  rw [hkind] at hnumeral
  obtain ⟨n, suffix, hwrites⟩ := exists_writesInteger hnumeral
  obtain ⟨hunsigned, hsigned⟩ := integerType?_of_writes hwrites
  rw [String.ofList_toList] at hunsigned hsigned
  exact ⟨n, suffix, hwrites, hunsigned, fun _ => hsigned⟩

/-! ## §2. Integers of a text that has a type. -/

/-- The token has a type, if it is an integer.  A discard is none, whatever its kind. -/
def Token.Counts (t : Token) : Prop :=
  t.kind = .integerLiteral → t.text ≠ "_" → (integerType? t.text).isSome = true

theorem Token.counts_of_ne {t : Token} (h : t.kind ≠ .integerLiteral) : t.Counts :=
  fun hkind => absurd hkind h

theorem Token.counts_of_negated {t minus : Token} (h : (t.negated minus).Counts) : t.Counts := by
  intro hkind htext
  refine isSome_of_minus (h hkind fun hdiscard => ?_)
  have hhead := congrArg (fun text => text.toList.head?) hdiscard
  simp only [Token.negated, String.toList_append] at hhead
  cases hhead

/-- From `c`, past tokens that count, one gets to `e`.  On the way a number may take a minus. -/
inductive Counted : Cursor → Cursor → Prop where
  | refl (c : Cursor) : Counted c c
  | next {c d e : Cursor} (hc : c.current.Counts) (hnext : c.next = .ok d) (h : Counted d e) : Counted c e
  | negated {c e : Cursor} (minus : Token) (h : Counted { c with current := c.current.negated minus } e) :
      Counted c e

namespace Counted

variable {c d e : Cursor}

/-- Past a token that counts. -/
theorem of_next (hc : c.current.Counts) (hnext : c.next = .ok d) : Counted c d := .next hc hnext (.refl d)

/-- Past tokens in a row. -/
theorem trans (h : Counted c d) (h' : Counted d e) : Counted c e := by
  induction h with
  | refl => exact h'
  | next hc hnext _ ih => exact .next hc hnext (ih h')
  | negated minus _ ih => exact .negated minus (ih h')

/-- **Up to the end of a text, all tokens count.** -/
theorem after (h : Counted c e) (he : e.current.isFinish = true) :
    ∃ ts, After c ts ∧ ∀ t ∈ c.current :: ts, t.Counts := by
  -- By induction on the way: a token that takes a minus counts without it as well.
  induction h with
  | refl c =>
    have hkind : c.current.kind = .finish := Token.isFinish_iff.1 he
    refine ⟨[], .finish he, fun t ht => ?_⟩
    rw [List.mem_singleton.1 ht]
    exact Token.counts_of_ne (by rw [hkind]; decide)
  | @next c d e hc hnext _ ih =>
    obtain ⟨ts, hafter, hcount⟩ := ih he
    cases hfinish : c.current.isFinish with
    | true =>
      rw [Cursor.next, if_pos hfinish] at hnext
      cases hnext
      exact ⟨ts, hafter, hcount⟩
    | false => exact ⟨d.current :: ts, .next hfinish hnext hafter, List.forall_mem_cons.2 ⟨hc, hcount⟩⟩
  | @negated c e minus _ ih =>
    obtain ⟨ts, hafter, hcount⟩ := ih he
    obtain ⟨hfirst, hcount⟩ := List.forall_mem_cons.1 hcount
    exact ⟨ts, hafter.congr rfl rfl rfl rfl, List.forall_mem_cons.2 ⟨Token.counts_of_negated hfirst, hcount⟩⟩

end Counted

namespace Typing

/-- **Every rule goes only past integers that have a type.** -/
def countCourse : Course where
  during _ _ := True
  past w v := Counted w.cursor v.cursor
  failed _ _ := True
  named w v := Counted w.cursor v.cursor
  plain := Token.Counts
  word t := t.kind = .identifier
  creates t := t.kind = .identifier
  during_self _ := trivial
  past_self w := .refl w.cursor
  failed_self _ := trivial
  past_trans := .trans
  during_of_past _ _ := trivial
  failed_of_past _ _ := trivial
  during_of_failed _ := trivial
  during_of_moved _ := trivial
  failed_of_moved _ := trivial
  plain_of_kind h := Token.counts_of_ne fun hkind => by simp [hkind, TokenKind.isNeutral, TokenKind.isNumber] at h
  plain_of_number := by
    intro t name h hkind _
    have htype : integerType? t.text = some name := by rwa [Token.numberType?, hkind] at h
    rw [htype]
    rfl
  plain_of_discard htext _ h := absurd htext h
  plain_of_word h := Token.counts_of_ne (by rw [h]; decide)
  word_of_kind h := h
  creates_of_word h _ := h
  past_next hc hnext := .of_next hc hnext
  past_pair := by
    intro w v c d closer hopen hnext hpast hclose hnext'
    have hopens : w.cursor.current.Counts := Token.counts_of_ne fun hkind => by
      rw [hkind] at hopen
      cases hopen
    have hcloses : v.cursor.current.Counts := Token.counts_of_ne fun hkind => by
      rw [hkind] at hclose
      subst hclose
      cases hk : w.cursor.current.kind <;> simp [hk, TokenKind.closer?] at hopen
    exact (Counted.of_next hopens hnext).trans (hpast.trans (.of_next hcloses hnext'))
  past_negated minus _ := .negated minus (.refl _)
  named_self w := .refl w.cursor
  named_next h hpart hnext := h.trans <| .of_next
    (Token.counts_of_ne fun hkind => by simp [hkind, TokenKind.isNamePart] at hpart) hnext
  past_of_named := id
  past_created := by
    intro w v u t c d e hnew hnext hnamed hmarked hopens hnext' hpast hcloses hlast
    have hmark : Counted v.cursor u.cursor := by
      rcases hmarked with rfl | ⟨f, g, hopen, hf, hclose, hg, rfl⟩
      · exact .refl _
      · exact (Counted.of_next (Token.counts_of_ne (by rw [hopen]; decide)) hf).trans
          (.of_next (Token.counts_of_ne (by rw [hclose]; decide)) hg)
    have hopen : u.cursor.current.Counts :=
      Token.counts_of_ne (by rcases hopens with h | h <;> rw [h] <;> decide)
    have hclose : t.cursor.current.Counts :=
      Token.counts_of_ne (by rcases hcloses with h | h <;> rw [h] <;> decide)
    have hword : w.cursor.current.Counts := Token.counts_of_ne (by rw [hnew]; decide)
    exact (Counted.of_next hword hnext).trans (hnamed.trans (hmark.trans ((Counted.of_next hopen hnext').trans
      (hpast.trans (.of_next hclose hlast)))))
  during_of_deeper _ _ := trivial
  past_of_deeper _ h := h
  failed_of_deeper _ _ := trivial
  during_of_scope _ _ := trivial
  past_of_scope _ h := h
  failed_of_scope _ _ := trivial

/-- **All integers of a text that has a type have types.** -/
theorem isSome_of_compile {s : Setting} {text : String} {type : TypeDef} (h : s.compile text = .ok type) :
    ∃ tokens, tokenize text = .ok tokens ∧
      ∀ t ∈ tokens, t.kind = .integerLiteral → (integerType? t.text).isSome = true := by
  obtain ⟨a, ⟨c, u, hopen, hrun, hfinish⟩, -⟩ := compile_eq_ok_iff.1 h
  have hpast : Counted c u.cursor := (Rule.follows_run countCourse s _ _ _).ok hrun
  obtain ⟨ts, hafter, hcount⟩ := hpast.after hfinish
  have htokens := tokenize_of_after hopen hafter
  refine ⟨_, htokens, fun t ht hkind => hcount t ht hkind ?_⟩
  obtain ⟨past, d, hreached, rfl⟩ := reaches_of_mem (.first hopen) hafter ht
  obtain ⟨previous, start, cs, htoken⟩ := hreached.token
  obtain ⟨n, suffix, hwrites, -⟩ := integerType?_of_token htoken hkind
  -- An integer starts with a digit, so it is no discard.
  obtain ⟨digit, rest, htext, hdigit⟩ := exists_head_of_writes hwrites
  intro hdiscard
  rw [hdiscard] at htext
  obtain ⟨rfl, -⟩ := List.cons.inj htext
  cases hdigit

/-! ## §3. An operand that is an integer. -/

/-- An operand that starts at `c` starts with the integer on which `d` stands: it is at `c`, or behind a minus
that is at `c` and is part of it. -/
inductive StartsInteger : Cursor → Cursor → Prop where
  | unsigned {c : Cursor} (hkind : c.current.kind = .integerLiteral) : StartsInteger c c
  | signed {c d : Cursor} (hminus : c.current.kind = .minus) (hnext : c.next = .ok d)
      (hkind : d.current.kind = .integerLiteral) :
      StartsInteger c { d with current := d.current.negated c.current }

/-- The integer is the token, with a minus or without one. -/
theorem StartsInteger.kind_eq {c d : Cursor} (h : StartsInteger c d) : d.current.kind = .integerLiteral := by
  cases h <;> assumption

/-- The operand that an integer of the type is. -/
def Operand.integer (name : String) : Operand := { Operand.predefined name with form := .integer }

namespace Rule

variable {s : Setting} {held : List Scope} {c d f : Cursor} {v : ScopedWalk} {k : Nat} {name : String}

/-- Where an integer stands it is read as a number. -/
theorem run_primary_of_integer (s : Setting) (call : Rule → Typer Operand)
    (hkind : v.cursor.current.kind = .integerLiteral) :
    (primary s call).run v = (number integerType? .integer .invalidInteger).run v := by
  refine (run_lookThen _ _).trans ?_
  rw [hkind]

/-- Where an operand starts with an integer, the integer is read one level deeper. -/
theorem run_unary_of_starts (s : Setting) (k : Nat) (h : StartsInteger v.cursor d)
    (hdepth : v.depth < Limits.nesting) :
    (run s (k + 1) unary).run v = (nested (run s k operand)).run (v.moved d) := by
  cases h with
  | unsigned hkind =>
    refine run_nested_congr ?_
    exact run_of_noSign (noSign_of_kind _ hkind (by decide))
  | @signed d hminus hnext hkind =>
    -- The minus is a sign, and the number behind it takes it.
    have hsign : (v.deeper.cursor.isAny [.minus, .exclamation] || v.deeper.cursor.isWord "not") = true := by
      simp [Walk.deeper, Cursor.isAny, hminus]
    have htakes : (v.deeper.cursor.current.kind = .minus && d.current.kind.isNumber) = true := by
      simp [Walk.deeper, hminus, hkind, TokenKind.isNumber]
    have hadvance : (advance : Typer Unit).run v.deeper = .ok () (v.deeper.moved d) := run_advance hnext
    -- Step by step: the sign, past it, the number with the minus, the operand.
    obtain ⟨inner, hbody, hinner⟩ : ∃ inner : Typer Operand, run s (k + 1) unary = nested inner ∧
        inner.run v.deeper =
          (run s k operand).run (v.moved { d with current := d.current.negated v.cursor.current }).deeper := by
      refine ⟨_, rfl, ?_⟩
      refine (run_lookThen _ _).trans ((run_lookThen _ _).trans ?_)
      rw [hsign, if_pos rfl]
      refine (run_lookThen _ _).trans ((run_bind_of_ok hadvance).trans ((run_lookThen _ _).trans ?_))
      rw [if_pos htakes]
      rfl
    rw [hbody]
    simp only [nested, if_neg (Nat.not_le.2 hdepth), between, hinner]

/-- **An operand that is an integer without a type** fails, and names the integer. -/
theorem fails_unary (h : StartsInteger c d) (htype : integerType? d.current.text = none) :
    FailsIn (1 + unary.height) s held unary c (.fault ⟨.invalidInteger d.current.text, d.current.start⟩) := by
  rintro k v rfl - hk hdepth
  obtain ⟨k, rfl⟩ : ∃ k', k = k' + 2 := ⟨k - 2, by simp only [height] at hk; omega⟩
  have hdepth : v.depth < Limits.nesting := by omega
  rw [run_unary_of_starts s (k + 1) h hdepth]
  have hoperand : (run s (k + 1) operand).run (v.moved d).deeper =
      .error (.fault ⟨.invalidInteger d.current.text, d.current.start⟩) (v.moved d).deeper := by
    refine run_bind_of_error ?_
    rw [run_primary_of_integer s _ h.kind_eq]
    refine (run_lookThen _ _).trans ?_
    simp only [Walk.deeper, htype]
    rfl
  exact ⟨_, run_nested_of_error hdepth hoperand⟩

/-- **An operand that is an integer with a type** is read as a value of the type. -/
theorem reads_unary (h : StartsInteger c d) (htype : integerType? d.current.text = some name)
    (hnext : d.next = .ok f) (hstop : operand.goesOn f = false) :
    ReadsIn (1 + unary.height) s held unary c (Operand.integer name) f := by
  rintro k v rfl - hk hdepth
  obtain ⟨k, rfl⟩ : ∃ k', k = k' + 2 := ⟨k - 2, by simp only [height] at hk; omega⟩
  have hdepth : v.depth < Limits.nesting := by omega
  rw [run_unary_of_starts s (k + 1) h hdepth]
  have hprimary : (primary s (run s k)).run (v.moved d).deeper =
      .ok (Operand.integer name) ((v.moved d).deeper.moved f) := by
    rw [run_primary_of_integer s _ h.kind_eq]
    refine (run_lookThen _ _).trans ?_
    simp only [Walk.deeper, htype]
    exact (run_bind_of_ok (run_advance hnext)).trans rfl
  have hoperand : (run s (k + 1) operand).run (v.moved d).deeper =
      .ok (Operand.integer name) ((v.moved d).deeper.moved f) := by
    refine (run_bind_of_ok hprimary).trans ?_
    exact run_repeatStep_of_stop (run_attachedStep_of_stop _ hstop)
  exact run_nested_of_ok hdepth hoperand

end Rule

/-! ## §4. A text that is an integer. -/

variable {s : Setting} {text : String} {c d f : Cursor} {name : String}

/-- The type that holds a value is found by its full name. -/
theorem fullName_of_holds {v : Int} (h : holds v name = true) : (Operand.integer name).type.fullName = name := by
  have hmem : name ∈ integerRanges.map Prod.fst := by
    cases hlookup : integerRanges.lookup name with
    | none => simp [holds, hlookup] at h
    | some range =>
      obtain ⟨l, l', hranges, -⟩ := List.lookup_eq_some_iff.1 hlookup
      simp [hranges]
  have hall : ∀ name ∈ integerRanges.map Prod.fst, (Operand.integer name).type.fullName = name := by decide
  exact hall name hmem

/-- The type of an integer of a text holds a number. -/
theorem StartsInteger.holds {past : List TokenKind} (h : StartsInteger c d) (hreached : Reaches text.toList past c)
    (htype : integerType? d.current.text = some name) : ∃ v, holds v name = true := by
  cases h with
  | unsigned hkind =>
    obtain ⟨previous, start, cs, htoken⟩ := hreached.token
    obtain ⟨n, suffix, -, hfirst, -⟩ := integerType?_of_token htoken hkind
    exact ⟨n, List.find?_some (hfirst.symm.trans htype)⟩
  | signed hminus hnext hkind =>
    obtain ⟨previous, start, cs, htoken⟩ := (hreached.next (Token.isFinish_of_kind hminus nofun) hnext).token
    obtain ⟨n, suffix, -, -, hfirst⟩ := integerType?_of_token htoken hkind
    exact ⟨-n, List.find?_some ((hfirst _).symm.trans htype)⟩

/-- What comes of a text that is the integer, which starts at the position. -/
def Setting.Judges (s : Setting) (text literal : String) (position : Nat) : Prop :=
  match integerType? literal with
  | some name => ∃ type, s.compile text = .ok type ∧ type.fullName = name
  | none => s.compile text = .error (.fault ⟨.invalidInteger literal, position⟩)

/-- An integer that has no type is refused where it stands. -/
theorem Setting.Judges.refused {literal : String} {position : Nat} (h : s.Judges text literal position)
    (htype : integerType? literal = none) :
    s.compile text = .error (.fault ⟨.invalidInteger literal, position⟩) := by
  unfold Setting.Judges at h
  rwa [htype] at h

/-- **A text that is an integer has the type of the integer**, and is refused if there is none. -/
theorem judges_of_starts (s : Setting) (hopen : Cursor.open? text.toList = .ok c) (h : StartsInteger c d)
    (hnext : d.next = .ok f) (hf : f.current.isFinish = true) :
    s.Judges text d.current.text d.current.start := by
  have houtward := Rule.inner_conditional .unary
  have hstops : Rule.conditional.Stops f := Rule.stops_finish _ hf
  unfold Setting.Judges
  cases htype : integerType? d.current.text with
  | some name =>
    have hreads : Rule.ReadsIn _ s [] .unary c (Operand.integer name) f :=
      Rule.reads_unary h htype hnext (Rule.stops_finish _ hf).goesOn
    have hcompile := Rule.compile_of_readsIn hopen hf (hreads.outward houtward hstops nofun)
    obtain ⟨v, hholds⟩ := h.holds (.first hopen) htype
    exact ⟨_, hcompile, fullName_of_holds hholds⟩
  | none =>
    have hfails : Rule.FailsIn _ s [] .unary c (.fault ⟨.invalidInteger d.current.text, d.current.start⟩) :=
      Rule.fails_unary h htype
    exact Rule.compile_of_failsIn hopen (hfails.outward houtward nofun)

/-- A text of one integer and no other token. -/
theorem judges_of_integer (s : Setting) {t e : Token} (h : tokenize text = .ok [t, e])
    (hkind : t.kind = .integerLiteral) : s.Judges text t.text t.start := by
  obtain ⟨c, ts, hopen, htokens, hafter⟩ := after_of_tokenize h
  obtain ⟨rfl, rfl⟩ := List.cons.inj htokens
  cases hafter with
  | @next _ f _ hc hnext hafter =>
    cases hafter with
    | finish hf => exact judges_of_starts s hopen (.unsigned hkind) hnext hf

/-- A text of a minus, an integer and no other token. -/
theorem judges_of_minus (s : Setting) {m t e : Token} (h : tokenize text = .ok [m, t, e])
    (hminus : m.kind = .minus) (hkind : t.kind = .integerLiteral) :
    s.Judges text (t.negated m).text m.start := by
  obtain ⟨c, ts, hopen, htokens, hafter⟩ := after_of_tokenize h
  obtain ⟨rfl, rfl⟩ := List.cons.inj htokens
  cases hafter with
  | @next _ d _ hc hread hafter =>
    cases hafter with
    | @next _ f _ hd hnext hafter =>
      cases hafter with
      | finish hf =>
        have hsame : Cursor.next { d with current := d.current.negated c.current } = d.next :=
          Cursor.next_congr rfl rfl rfl rfl hd
        have hstarts : StartsInteger c { d with current := d.current.negated c.current } :=
          .signed hminus hread hkind
        have hjudges := judges_of_starts s hopen hstarts (hsame.trans hnext) hf
        exact hjudges

end Typing

/-! ## §5. Every integer. -/

open Typing

/-- **An integer has the first type that holds its value**, of those that its suffix leaves open, whatever
text it is scanned from, with a minus before it or not.  Typing calls a literal an invalid integer only if it
is an integer of the text, possibly with the minus before it, that has no type.  Wherever an operand starts
with such an integer, reading it fails for that reason, and a text with an integer that has no type is never
typed.  A text that is an integer, or a minus and an integer, is refused exactly if no type holds it. -/
theorem integer_types {previous : Option TokenKind} {start : Nat} {cs rest : List Char} {t : Token}
    (h : Scan.token previous start cs = .ok (t, rest)) (hkind : t.kind = .integerLiteral) :
    (∃ n suffix, WritesInteger t.text.toList n suffix ∧
      integerType? t.text = (openTypes false suffix).find? (holds n) ∧
      ∀ minus, integerType? (t.negated minus).text = (openTypes true suffix).find? (holds (-n))) ∧
    ∀ (s : Setting) (text : String),
      (∀ literal position, s.compile text = .error (.fault ⟨.invalidInteger literal, position⟩) →
        WritesNumber text.toList .integerLiteral literal position ∧ integerType? literal = none) ∧
      (∀ held c d, StartsInteger c d → integerType? d.current.text = none →
        Rule.FailsIn 2 s held .unary c (.fault ⟨.invalidInteger d.current.text, d.current.start⟩)) ∧
      (∀ type, s.compile text = .ok type → ∃ tokens, tokenize text = .ok tokens ∧
        ∀ t ∈ tokens, t.kind = .integerLiteral → (integerType? t.text).isSome = true) ∧
      (∀ t e, tokenize text = .ok [t, e] → t.kind = .integerLiteral → s.Judges text t.text t.start) ∧
      ∀ m t e, tokenize text = .ok [m, t, e] → m.kind = .minus → t.kind = .integerLiteral →
        s.Judges text (t.negated m).text m.start := by
  refine ⟨integerType?_of_token h hkind, fun s text => ⟨fun literal position hcompile => ?_,
    fun held c d => Rule.fails_unary, fun type => isSome_of_compile, fun t e => judges_of_integer s,
    fun m t e => judges_of_minus s⟩⟩
  have hcases := compile_cases s text
  rw [hcompile] at hcases
  exact hcases

/-- The least number of 64 bits, and the one before it. -/
theorem integer_types_of_least :
    Scan.token (some .minus) 1 "0x8000000000000000 ".toList =
      .ok (⟨.integerLiteral, "0x8000000000000000", 1⟩, [' ']) ∧
      (∃ n suffix, WritesInteger "0x8000000000000000".toList n suffix ∧
        (openTypes true suffix).find? (holds (-n)) = some Known.int64) ∧
      ∀ s : Setting, s.compile "-0x8000000000000001" =
        .error (.fault ⟨.invalidInteger "-0x8000000000000001", 0⟩) := by
  have hscan : Scan.token (some .minus) 1 "0x8000000000000000 ".toList =
      .ok (⟨.integerLiteral, "0x8000000000000000", 1⟩, [' ']) := by decide +kernel
  have hkind : (⟨.integerLiteral, "0x8000000000000000", 1⟩ : Token).kind = .integerLiteral := rfl
  obtain ⟨⟨n, suffix, hwrites, -, hsigned⟩, hcompile⟩ := integer_types hscan hkind
  have htype : some Known.int64 = (openTypes true suffix).find? (holds (-n)) := by
    rw [← hsigned ⟨.minus, "-", 0⟩]
    decide +kernel
  -- The one integer below the least of `Int64`, as the tokens of a text.
  have htokens : tokenize "-0x8000000000000001" = .ok [⟨.minus, "-", 0⟩,
      ⟨.integerLiteral, "0x8000000000000001", 1⟩, ⟨.finish, "", 19⟩] := by decide +kernel
  have htext : "-" ++ "0x8000000000000001" = "-0x8000000000000001" := by decide +kernel
  have hnone : integerType? "-0x8000000000000001" = none := by decide +kernel
  refine ⟨hscan, ⟨n, suffix, hwrites, htype.symm⟩, fun s => ?_⟩
  have hverdict := (hcompile s "-0x8000000000000001").2.2.2.2 ⟨.minus, "-", 0⟩
    ⟨.integerLiteral, "0x8000000000000001", 1⟩ ⟨.finish, "", 19⟩ htokens rfl rfl
  rw [Token.negated, htext] at hverdict
  exact hverdict.refused hnone

end TypeAhead
