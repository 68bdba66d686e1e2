/-
  TypeAhead.Proofs.Typing.Brackets — THE BRACKETS OF AN EXPRESSION ARE NESTED.

  A text that has a type has its brackets in pairs, one pair within or beside
  another, and every bracket is closed by one of its kind.  There is one exception:
  the members of what `new` makes stand between a round or a curly bracket, and
  either of the two closes them, whichever of them was opened.  Null propagation is no
  bracket, but no rule goes past it either, so it is left out along with this.

      bracketCourse          what a rule goes past is nested
      passable_of_compile    all of a text that has a type
      compile_brackets       its brackets
-/
import TypeAhead.Proofs.Token.Coverage
import TypeAhead.Proofs.Typing.EveryRule

namespace TypeAhead

/-! ## §1. Brackets in a text. -/

namespace Scan

variable {previous : Option TokenKind} {start : Nat}

/-- Brackets and null propagation are symbols. -/
theorem isSymbol_of_not_isPlain {kind : TokenKind} (h : kind.isPlain = false) : kind.isSymbol = true := by
  cases kind <;> first | rfl | cases h

/-- Brackets and null propagation are spelled as they are listed. -/
theorem text_of_not_isPlain {cs rest : List Char} {t : Token}
    (h : Scan.token previous start cs = .ok (t, rest)) (ht : t.kind.isPlain = false) :
    t.text = t.kind.spelling := by
  rcases token_cases h with ⟨-, rfl, -⟩ | ⟨c, tail, kind, lexeme, -, hlexeme, rfl, -⟩
  · cases ht
  · have hplain : ∀ kind ∈ TokenKind.wordSymbols, kind.isPlain = true := by decide
    refine text_of_lexeme hlexeme (isSymbol_of_not_isPlain ht) fun hword => ?_
    cases (hplain kind hword).symm.trans ht

end Scan

namespace Typing

open Walker

/-- What a token is to the brackets of a text: its kind, and whether it is the word `new`. -/
structure Mark where
  kind : TokenKind
  isNew : Bool
  deriving Repr, DecidableEq

end Typing

/-- The mark of a token. -/
def Token.mark (t : Token) : Typing.Mark :=
  ⟨t.kind, t.kind == .identifier && Text.lower (plainName t.text) == "new"⟩

/-- The kind, if round and curly brackets are taken for the same. -/
def TokenKind.rounded : TokenKind → TokenKind
  | openCurly => openParen
  | closeCurly => closeParen
  | kind => kind

namespace Typing

/-- Brackets in pairs, each closed by one of its kind. -/
inductive Matched : List TokenKind → Prop where
  | nil : Matched []
  | append {ks ls : List TokenKind} (hk : Matched ks) (hl : Matched ls) : Matched (ks ++ ls)
  | plain {kind : TokenKind} (h : kind.isBracket = false) : Matched [kind]
  | pair {kind closer : TokenKind} {ks : List TokenKind} (h : kind.closer? = some closer)
      (hk : Matched ks) : Matched (kind :: (ks ++ [closer]))

/-- Brackets in pairs, each closed by one of its kind, save for those around the members of what
`new` makes. -/
inductive Nested : List Mark → Prop where
  | nil : Nested []
  | append {ms ns : List Mark} (hm : Nested ms) (hn : Nested ns) : Nested (ms ++ ns)
  | plain {m : Mark} (h : m.kind.isBracket = false) : Nested [m]
  | pair {m n : Mark} {ms : List Mark} (h : m.kind.closer? = some n.kind) (hm : Nested ms) :
      Nested (m :: (ms ++ [n]))
  | created {a b : Mark} {name array members : List Mark}
      (hname : ∀ m ∈ name, m.kind.isNamePart = true)
      (harray : array = [] ∨ array.map Mark.kind = [.openBracket, .closeBracket])
      (ha : a.kind = .openParen ∨ a.kind = .openCurly) (hm : Nested members)
      (hb : b.kind = .closeParen ∨ b.kind = .closeCurly) :
      Nested (⟨.identifier, true⟩ :: (name ++ (array ++ a :: (members ++ [b]))))

/-! ## §2. Brackets that are nested. -/

/-- The parts of a name are no brackets. -/
theorem isPlain_of_isNamePart {kind : TokenKind} (h : kind.isNamePart = true) : kind.isPlain = true := by
  cases kind <;> first | rfl | cases h

/-- What a rule may go past by itself is no bracket. -/
theorem isBracket_of_isPlain {kind : TokenKind} (h : kind.isPlain = true) : kind.isBracket = false := by
  cases kind <;> first | rfl | cases h

/-- A bracket stays one if it is taken for a round one. -/
theorem isBracket_rounded (kind : TokenKind) : kind.rounded.isBracket = kind.isBracket := by
  cases kind <;> rfl

/-- The brackets of a pair are both taken for round ones. -/
theorem closer?_rounded {kind closer : TokenKind} (h : kind.closer? = some closer) :
    kind.rounded.closer? = some closer.rounded := by
  cases kind <;> cases h <;> rfl

/-- Where there are no brackets they match. -/
theorem matched_of_plain {ks : List TokenKind} (h : ∀ k ∈ ks, k.isBracket = false) : Matched ks := by
  induction ks with
  | nil => exact .nil
  | cons k ks ih =>
    have hk := h k List.mem_cons_self
    exact .append (.plain hk) (ih fun l hl => h l (List.mem_cons_of_mem k hl))

/-- As many brackets are closed as are opened. -/
theorem Matched.count_eq {ks : List TokenKind} (h : Matched ks) {kind closer : TokenKind}
    (hcloser : kind.closer? = some closer) : ks.count kind = ks.count closer := by
  -- A pair counts for one kind of bracket and the one that closes it, or for neither.
  induction h with
  | nil => rfl
  | append _ _ ihk ihl => rw [List.count_append, List.count_append, ihk, ihl]
  | @plain other h =>
    cases kind <;> cases hcloser <;> cases other <;> first | rfl | cases h
  | @pair other otherCloser ks h _ ih =>
    simp only [List.count_cons, List.count_append, List.count_nil, ih]
    cases kind <;> cases hcloser <;> cases other <;> cases h <;> simp

/-- Without the word `new` every bracket is closed by one of its kind. -/
theorem Nested.matched {ms : List Mark} (h : Nested ms) (hnew : ∀ m ∈ ms, m.isNew = false) :
    Matched (ms.map Mark.kind) := by
  induction h with
  | nil => exact .nil
  | append _ _ ihm ihn =>
    rw [List.map_append]
    exact .append (ihm fun m hm => hnew m (List.mem_append_left _ hm))
      (ihn fun m hm => hnew m (List.mem_append_right _ hm))
  | plain h => exact .plain h
  | pair h _ ih =>
    rw [List.map_cons, List.map_append]
    exact .pair h (ih fun m hm => hnew m (List.mem_cons_of_mem _ (List.mem_append_left _ hm)))
  | created => cases hnew _ List.mem_cons_self

/-- If round and curly brackets are taken for the same, all brackets are closed by one of their
kind. -/
theorem Nested.rounded {ms : List Mark} (h : Nested ms) :
    Matched (ms.map fun m => m.kind.rounded) := by
  induction h with
  | nil => exact .nil
  | append _ _ ihm ihn =>
    rw [List.map_append]
    exact .append ihm ihn
  | @plain m h => exact .plain ((isBracket_rounded m.kind).trans h)
  | pair h _ ih =>
    rw [List.map_cons, List.map_append]
    exact .pair (closer?_rounded h) ih
  | @created a b name array members hname harray ha _ hb ih =>
    have hplain : Matched (name.map fun m => m.kind.rounded) := by
      refine matched_of_plain fun k hk => ?_
      obtain ⟨m, hm, rfl⟩ := List.mem_map.1 hk
      exact (isBracket_rounded m.kind).trans (isBracket_of_isPlain (isPlain_of_isNamePart (hname m hm)))
    -- The mark of an array is a pair of its own; the members stand between brackets that are
    -- rounded to a pair.
    have hbrackets : Matched (array.map fun m => m.kind.rounded) := by
      rcases harray with rfl | harray
      · exact .nil
      · have hrounded : array.map (fun m => m.kind.rounded) = [.openBracket, .closeBracket] := by
          have := congrArg (List.map TokenKind.rounded) harray
          rwa [List.map_map] at this
        rw [hrounded]
        exact .pair rfl Matched.nil
    have hmembers : Matched ((a :: (members ++ [b])).map fun m => m.kind.rounded) := by
      have ha : a.kind.rounded = .openParen := by rcases ha with ha | ha <;> rw [ha] <;> rfl
      have hb : b.kind.rounded = .closeParen := by rcases hb with hb | hb <;> rw [hb] <;> rfl
      simp only [List.map_cons, List.map_append, List.map_nil, ha, hb]
      exact .pair rfl ih
    rw [List.map_cons, List.map_append, List.map_append]
    exact .append (.plain rfl : Matched [_]) (.append hplain (.append hbrackets hmembers))

/-! ## §3. What rules go past. -/

/-- The marks of what rules go past: brackets that are nested, and no null propagation. -/
structure Passable (ms : List Mark) : Prop where
  nested : Nested ms
  ne_propagate : ∀ m ∈ ms, m.kind ≠ .propagate

namespace Passable

variable {ms ns : List Mark}

theorem nil : Passable [] := ⟨.nil, nofun⟩

/-- What may be gone past may be gone past in a row. -/
theorem append (hm : Passable ms) (hn : Passable ns) : Passable (ms ++ ns) :=
  ⟨.append hm.nested hn.nested, fun m h =>
    (List.mem_append.1 h).elim (hm.ne_propagate m) (hn.ne_propagate m)⟩

/-- One token that is not null propagation. -/
theorem single {m : Mark} (hnested : Nested [m]) (hne : m.kind ≠ .propagate) : Passable [m] :=
  ⟨hnested, fun _ h => List.mem_singleton.1 h ▸ hne⟩

/-- A token that is no bracket. -/
theorem plain {m : Mark} (h : m.kind.isPlain = true) : Passable [m] := by
  refine single (.plain (isBracket_of_isPlain h)) fun hkind => ?_
  rw [hkind] at h
  cases h

/-- A pair of brackets of one kind, and what is between them. -/
theorem pair {m n : Mark} (h : m.kind.closer? = some n.kind) (hm : Passable ms) :
    Passable (m :: (ms ++ [n])) := by
  have hopen : m.kind ≠ .propagate := by
    intro hkind
    rw [hkind] at h
    cases h
  have hclose : n.kind ≠ .propagate := by
    intro hkind
    rw [hkind] at h
    cases hk : m.kind <;> rw [hk] at h <;> cases h
  exact ⟨.pair h hm.nested, List.forall_mem_cons.2 ⟨hopen,
    List.forall_mem_append.2 ⟨hm.ne_propagate, List.forall_mem_singleton.2 hclose⟩⟩⟩

/-- What `new` makes: its brackets need not be of one kind. -/
theorem created {a b : Mark} {name array : List Mark} (hname : ∀ m ∈ name, m.kind.isNamePart = true)
    (harray : array = [] ∨ array.map Mark.kind = [.openBracket, .closeBracket])
    (ha : a.kind = .openParen ∨ a.kind = .openCurly) (hm : Passable ms)
    (hb : b.kind = .closeParen ∨ b.kind = .closeCurly) :
    Passable (⟨.identifier, true⟩ :: (name ++ (array ++ a :: (ms ++ [b])))) := by
  -- None of the five parts has null propagation.
  have hname' : ∀ m ∈ name, m.kind ≠ .propagate := by
    intro m hmem hkind
    have := hname m hmem
    rw [hkind] at this
    cases this
  have harray' : ∀ m ∈ array, m.kind ≠ .propagate := by
    intro m hmem hkind
    rcases harray with rfl | harray
    · cases hmem
    · have := harray ▸ List.mem_map_of_mem hmem
      rw [hkind] at this
      exact absurd this (by decide)
  have ha' : a.kind ≠ .propagate := by rcases ha with ha | ha <;> rw [ha] <;> decide
  have hb' : b.kind ≠ .propagate := by rcases hb with hb | hb <;> rw [hb] <;> decide
  refine ⟨.created hname harray ha hm.nested hb, List.forall_mem_cons.2 ⟨by decide, ?_⟩⟩
  simp only [List.forall_mem_append, List.forall_mem_cons]
  exact ⟨hname', harray', ha', hm.ne_propagate, hb', nofun⟩

end Passable

/-! ## §4. What is read between two places. -/

variable {c d e : Cursor} {P Q R : List Mark → Prop}

/-- The marks of the tokens from the current one on, up to the end of the text. -/
def Ahead (c : Cursor) (ms : List Mark) : Prop :=
  ∃ ts, After c ts ∧ ms = (c.current :: ts).map Token.mark

/-- If the current token is a bracket or propagates null, it is spelled so. -/
def WellRead (c : Cursor) : Prop :=
  c.current.kind.isPlain = false → c.current.text = c.current.kind.spelling

/-- From `c` to `d` tokens are read of which the marks satisfy `P`. -/
def Through (P : List Mark → Prop) (c d : Cursor) : Prop :=
  WellRead c → WellRead d ∧ ∃ ms, P ms ∧ ∀ after, Ahead d after → Ahead c (ms ++ after)

/-- From a place to itself nothing is read. -/
theorem Through.self (h : P []) : Through P c c := fun hc => ⟨hc, [], h, fun _ h => h⟩

/-- Some marks and others after them. -/
def Row (P Q : List Mark → Prop) (ls : List Mark) : Prop := ∃ ms ns, ls = ms ++ ns ∧ P ms ∧ Q ns

/-- Less may be said of what is read. -/
theorem Through.imp (h : Through P c d) (hQ : ∀ ms, P ms → Q ms) : Through Q c d := by
  intro hc
  obtain ⟨hd, ms, hms, hahead⟩ := h hc
  exact ⟨hd, ms, hQ ms hms, hahead⟩

/-- What is read from a first place to a last one, by way of a place between them. -/
theorem Through.trans (h : Through P c d) (h' : Through Q d e) : Through (Row P Q) c e := by
  intro hc
  obtain ⟨hd, ms, hms, hahead⟩ := h hc
  obtain ⟨he, ns, hns, hahead'⟩ := h' hd
  refine ⟨he, ms ++ ns, ⟨ms, ns, rfl, hms, hns⟩, fun after hafter => ?_⟩
  rw [List.append_assoc]
  exact hahead _ (hahead' after hafter)

/-- Two parts in a row may be gone past. -/
theorem passable_of_row (ms : List Mark) (h : Row Passable Passable ms) : Passable ms := by
  obtain ⟨ms, ns, rfl, hm, hn⟩ := h
  exact .append hm hn

/-- A token that has been read is where its text is. -/
theorem wellRead_of_read {size offset : Nat} {previous : Option TokenKind} {rest : List Char}
    (h : Cursor.read size previous offset rest = .ok c) : WellRead c :=
  Scan.text_of_not_isPlain (Cursor.read_eq_ok h).2.2

/-- The next token is read. -/
theorem through_next (hc : c.current.isFinish = false) (h : c.next = .ok d) :
    Through (· = [c.current.mark]) c d := by
  intro _
  have hread := h
  rw [Cursor.next_of_not_finish hc] at hread
  refine ⟨wellRead_of_read hread, [c.current.mark], rfl, ?_⟩
  rintro _ ⟨ts, hafter, rfl⟩
  exact ⟨d.current :: ts, .next hc h hafter, rfl⟩

/-- The next token is read, or the text is over. -/
theorem through_next_plain (hplain : WellRead c → c.current.kind.isPlain = true) (h : c.next = .ok d) :
    Through Passable c d := by
  cases hc : c.current.isFinish with
  | false =>
    intro hread
    refine ((through_next hc h).imp ?_) hread
    rintro _ rfl
    exact .plain (hplain hread)
  | true =>
    -- The end repeats, so nothing is read there.
    rw [Cursor.next, if_pos hc] at h
    cases h
    exact .self .nil

/-- A pair of brackets is put around what is read. -/
theorem through_pair {c c' d d' : Cursor} {closer : TokenKind}
    (hopen : c.current.kind.closer? = some closer) (hnext : c.next = .ok c') (h : Through Passable c' d)
    (hclose : d.current.kind = closer) (hlast : d.next = .ok d') : Through Passable c d' := by
  have hc : c.current.kind ≠ .finish := by
    intro hfinish
    rw [hfinish] at hopen
    cases hopen
  have hd : closer ≠ .finish := by
    rintro rfl
    cases hk : c.current.kind <;> rw [hk] at hopen <;> cases hopen
  refine ((through_next (Token.isFinish_of_kind rfl hc) hnext).trans
    (h.trans (through_next (Token.isFinish_of_kind hclose hd) hlast))).imp ?_
  rintro _ ⟨_, _, rfl, rfl, ms, _, rfl, hms, rfl⟩
  exact .pair (hopen.trans (hclose ▸ rfl)) hms

/-! ## §5. What a rule reads. -/

/-- Between two walks there are marks that satisfy `P`. -/
abbrev Between (P : List Mark → Prop) (w v : ScopedWalk) : Prop := Through P w.cursor v.cursor

/-- Parts of the name of a type. -/
def IsName (ms : List Mark) : Prop := ∀ m ∈ ms, m.kind.isNamePart = true

/-- The name of a type may be gone past. -/
theorem passable_of_isName (ms : List Mark) (h : IsName ms) : Passable ms := by
  induction ms with
  | nil => exact .nil
  | cons m ms ih =>
    have hm := isPlain_of_isNamePart (h m List.mem_cons_self)
    exact .append (.plain hm) (ih fun n hn => h n (List.mem_cons_of_mem m hn))

/-- The mark of an array, or nothing. -/
def IsArrayMark (ms : List Mark) : Prop :=
  ms = [] ∨ ms.map Mark.kind = [.openBracket, .closeBracket]

/-- The brackets of an array are read as such. -/
theorem between_of_marked {w v : ScopedWalk} (h : Marked w v) : Between IsArrayMark w v := by
  rcases h with rfl | ⟨a, b, hopen, ha, hclose, hb, rfl⟩
  · exact .self (.inl rfl)
  · have hopened := through_next (Token.isFinish_of_kind hopen (by decide)) ha
    have hclosed := through_next (Token.isFinish_of_kind hclose (by decide)) hb
    refine (hopened.trans hclosed).imp ?_
    rintro _ ⟨_, _, rfl, rfl, rfl⟩
    exact .inr (by simp [Token.mark, hopen, hclose])

/-- The word `new`. -/
def IsNew (t : Token) : Prop := t.mark = ⟨.identifier, true⟩

/-- `new` with the members of what it makes. -/
theorem between_created {w v u t : ScopedWalk} {c d e : Cursor} (hnew : IsNew w.cursor.current)
    (hnext : w.cursor.next = .ok c) (hname : Between IsName (w.moved c) v) (hmarked : Marked v u)
    (hopens : OpensMembers u.cursor) (hopen : u.cursor.next = .ok d)
    (hmembers : Between Passable (u.moved d) t) (hcloses : ClosesMembers t.cursor)
    (hlast : t.cursor.next = .ok e) : Between Passable w (t.moved e) := by
  have hw : w.cursor.current.isFinish = false :=
    Token.isFinish_of_kind (congrArg Mark.kind hnew) (by decide)
  have hu : u.cursor.current.isFinish = false := by
    rcases hopens with h | h <;> exact Token.isFinish_of_kind h (by decide)
  have ht : t.cursor.current.isFinish = false := by
    rcases hcloses with h | h <;> exact Token.isFinish_of_kind h (by decide)
  have hbody := (through_next hu hopen).trans (Through.trans hmembers (through_next ht hlast))
  refine ((through_next hw hnext).trans (Through.trans hname
    ((between_of_marked hmarked).trans hbody))).imp ?_
  rintro _ ⟨_, _, rfl, rfl, name, _, rfl, hname, array, _, rfl, harray, _, _, rfl, rfl, members, _, rfl,
    hmembers, rfl⟩
  rw [show w.cursor.current.mark = ⟨.identifier, true⟩ from hnew]
  exact .created hname harray hopens hmembers hcloses

/-- A number that takes a minus has the same mark. -/
theorem ahead_negated {c : Cursor} (minus : Token) (hc : c.current.kind.isNumber = true) {after : List Mark}
    (h : Ahead { c with current := c.current.negated minus } after) : Ahead c after := by
  obtain ⟨ts, hafter, rfl⟩ := h
  refine ⟨ts, hafter.congr rfl rfl rfl rfl, ?_⟩
  have hword : (c.current.kind == .identifier) = false := by
    cases hk : c.current.kind <;> rw [hk] at hc <;> first | rfl | cases hc
  simp [Token.mark, Token.negated, hword]

/-- **What a rule goes past is nested**, and propagates no null.  What it reads before it fails need
not be so. -/
def bracketCourse : Course where
  during _ _ := True
  past := Between Passable
  failed _ _ := True
  named := Between IsName
  plain t := t.kind.isPlain = true ∨ t.text ≠ t.kind.spelling
  word t := t.kind = .identifier
  creates := IsNew
  during_self _ := trivial
  past_self _ := .self .nil
  failed_self _ := trivial
  past_trans h h' := (h.trans h').imp passable_of_row
  during_of_past _ _ := trivial
  failed_of_past _ _ := trivial
  during_of_failed _ := trivial
  during_of_moved _ := trivial
  failed_of_moved _ := trivial
  plain_of_kind h := .inl (TokenKind.isPlain_of_isNeutral h)
  plain_of_number h := .inl (Token.isPlain_of_numberType? h)
  plain_of_discard := by
    intro t ht
    refine .inr ?_
    rw [ht]
    cases t.kind <;> decide
  plain_of_word h := .inl (h ▸ rfl)
  word_of_kind h := h
  creates_of_word := by
    intro t hword hnew
    simp [IsNew, Token.mark, hword, hnew]
  past_next := by
    intro w c hplain hnext
    refine through_next_plain (fun hread => ?_) hnext
    cases hkind : w.cursor.current.kind.isPlain with
    | true => rfl
    | false =>
      -- The discard of an `out` is known by its spelling alone, which is that of no bracket.
      rcases hplain with h | h
      · exact hkind.symm.trans h
      · exact absurd (hread hkind) h
  past_pair := through_pair
  past_negated := by
    intro w minus hnumber hread
    refine ⟨?_, [], .nil, fun after => ahead_negated minus hnumber⟩
    intro hkind
    cases hk : w.cursor.current.kind <;> simp_all [Token.negated, TokenKind.isNumber, TokenKind.isPlain]
  named_self _ := .self nofun
  named_next := by
    intro w v c hnamed hpart hnext
    have hv : v.cursor.current.isFinish = false := by
      refine Token.isFinish_of_kind rfl fun hfinish => ?_
      rw [hfinish] at hpart
      cases hpart
    refine (Through.trans hnamed (through_next hv hnext)).imp ?_
    rintro _ ⟨ms, _, rfl, hms, rfl⟩ m hm
    rcases List.mem_append.1 hm with hm | hm
    · exact hms m hm
    · rw [List.mem_singleton.1 hm]
      exact hpart
  past_of_named h := h.imp passable_of_isName
  past_created := between_created
  during_of_deeper _ _ := trivial
  past_of_deeper _ h := h
  failed_of_deeper _ _ := trivial
  during_of_scope _ _ := trivial
  past_of_scope _ h := h
  failed_of_scope _ _ := trivial

/-! ## §6. Texts that have a type. -/

/-- A rule that comes to the end of the text has gone past all tokens from its start on. -/
theorem passable_of_follows {α : Type} {x : Typer α} {w u : ScopedWalk} {a : α} (hx : bracketCourse.Follows x w)
    (hread : WellRead w.cursor) (hrun : x.run w = .ok a u) (hfinish : u.cursor.current.isFinish = true) :
    ∃ ts, After w.cursor ts ∧ Passable ((w.cursor.current :: ts).map Token.mark) := by
  -- The walk is at the end, so what it has read are all tokens but the last.
  obtain ⟨-, ms, hms, hahead⟩ := hx.ok hrun hread
  obtain ⟨ts, hafter, hmarks⟩ := hahead _ ⟨[], .finish hfinish, rfl⟩
  refine ⟨ts, hafter, ?_⟩
  rw [← hmarks]
  have hkind : u.cursor.current.mark.kind = .finish := eq_of_beq hfinish
  exact .append hms (.plain (hkind ▸ rfl))

/-- All tokens of a text that has a type are gone past. -/
theorem passable_of_compile {s : Setting} {text : String} {t : TypeDef} (h : s.compile text = .ok t) :
    ∃ tokens, tokenize text = .ok tokens ∧ Passable (tokens.map Token.mark) := by
  unfold Setting.compile at h
  split at h
  · cases h
  rename_i c hopen
  unfold Setting.typeOf at h
  cases hrule : (Rule.run s Rule.budget .conditional).run ⟨c, 0, []⟩ with
  | error failure w =>
    rw [hrule] at h
    cases h
  | ok a w =>
    rw [hrule] at h
    cases hfinish : w.cursor.current.isFinish with
    | false =>
      simp only [hfinish] at h
      cases h
    | true =>
      -- A walk that ends at the end of the text has gone past every token, and those nest.
      have hread : WellRead c := wellRead_of_read hopen
      obtain ⟨ts, hafter, hpassable⟩ := passable_of_follows
        (Rule.follows_run bracketCourse s Rule.budget .conditional ⟨c, 0, []⟩) hread hrule hfinish
      exact ⟨_, tokenize_of_after hopen hafter, hpassable⟩

/-- **The brackets of a text that has a type are nested.**  Each is closed by one of its kind, save
that a round or a curly bracket after `new` may be closed by either of the two.  So without the word
`new`, all of them are closed by one of their kind. -/
theorem compile_brackets {s : Setting} {text : String} {t : TypeDef} (h : s.compile text = .ok t) :
    ∃ tokens, tokenize text = .ok tokens ∧ Nested (tokens.map Token.mark) ∧
      Matched (tokens.map fun t => t.kind.rounded) ∧
      ((∀ t ∈ tokens, t.mark.isNew = false) → Matched (tokens.map Token.kind)) := by
  obtain ⟨tokens, htokens, hnested, -⟩ := passable_of_compile h
  refine ⟨tokens, htokens, hnested, ?_, fun hnew => ?_⟩
  · have := hnested.rounded
    rwa [List.map_map] at this
  · have := hnested.matched fun m hm => by
      obtain ⟨t, ht, rfl⟩ := List.mem_map.1 hm
      exact hnew t ht
    rwa [List.map_map] at this

/-- A round bracket after `new` that a curly one closes: the text has a type, and its brackets do not
match. -/
theorem compile_brackets_of_created :
    ∃ t tokens, (⟨.empty, {}, (Operand.predefined Known.string).type⟩ : Setting).compile "new (1 as a\x7d" = .ok t ∧
      tokenize "new (1 as a\x7d" = .ok tokens ∧ Nested (tokens.map Token.mark) ∧
      ¬ Matched (tokens.map Token.kind) := by
  have h : (⟨.empty, {}, (Operand.predefined Known.string).type⟩ : Setting).compile "new (1 as a\x7d" = .ok _ :=
    rfl
  obtain ⟨tokens, htokens, hnested, -⟩ := compile_brackets h
  refine ⟨_, tokens, h, htokens, hnested, fun hmatched => ?_⟩
  have hcount := hmatched.count_eq (show TokenKind.openParen.closer? = some .closeParen from rfl)
  cases htokens
  exact absurd hcount (by decide)

end Typing

end TypeAhead
