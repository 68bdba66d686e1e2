/-
  TypeAhead.Proofs.Typing.Onward — RULES GO ON TOKEN BY TOKEN.

  However a rule gets from one token to another one, it goes past all that are between
  them.  So what is read between brackets has an enclosure of its own, up to the
  closing bracket: what is known of rules up to a closing bracket holds there, wherever
  the brackets stand.

      onwardCourse     every rule goes on
      upTo             an enclosure within an enclosure
      copies_closed    what stands before a closing bracket
-/
import TypeAhead.Proofs.Typing.EveryRule
import TypeAhead.Proofs.Walk.Enclosure

namespace TypeAhead

open Walker

/-! ## §1. From one token to another one. -/

/-- From `c`, token by token, one gets to `e`.  On the way a token may be worded anew. -/
inductive Onward : Cursor → Cursor → Prop where
  | refl (c : Cursor) : Onward c c
  | next {c d e : Cursor} (hc : c.current.isFinish = false) (hnext : c.next = .ok d) (h : Onward d e) :
      Onward c e
  | worded {c e : Cursor} {t : Token} (hkind : t.kind = c.current.kind)
      (h : Onward { c with current := t } e) : Onward c e

/-- The cursors stand on the same token, however it is worded. -/
structure Cursor.Coincide (c e : Cursor) : Prop where
  size_eq : c.size = e.size
  rest_eq : c.rest = e.rest
  kind_eq : c.current.kind = e.current.kind

theorem Cursor.Coincide.ahead_eq {c e : Cursor} (h : Cursor.Coincide c e) : c.ahead = e.ahead := by
  rw [Cursor.ahead, Cursor.ahead, Token.isFinish, Token.isFinish, h.kind_eq, h.rest_eq]

namespace Onward

variable {c d e : Cursor}

theorem trans (h : Onward c d) (h' : Onward d e) : Onward c e := by
  induction h with
  | refl => exact h'
  | next hc hnext _ ih => exact .next hc hnext (ih h')
  | worded hkind _ ih => exact .worded hkind (ih h')

theorem of_next (hnext : c.next = .ok d) : Onward c d := by
  cases hc : c.current.isFinish with
  | false => exact .next hc hnext (.refl d)
  | true =>
    rw [Cursor.next, if_pos hc] at hnext
    cases hnext
    exact .refl c

/-- One is there, or goes on to the next token. -/
theorem cases_next (h : Onward c e) :
    Cursor.Coincide c e ∨ c.current.isFinish = false ∧ ∃ d, c.next = .ok d ∧ Onward d e := by
  induction h with
  | refl => exact .inl ⟨rfl, rfl, rfl⟩
  | next hc hnext h => exact .inr ⟨hc, _, hnext, h⟩
  | @worded c e t hkind _ ih =>
    rcases ih with hsame | ⟨hfinish, d, hnext, h⟩
    · exact .inl ⟨hsame.size_eq, hsame.rest_eq, hkind.symm.trans hsame.kind_eq⟩
    · have hc : c.current.isFinish = false := by rwa [Token.isFinish, hkind] at hfinish
      have hsame : ({ c with current := t } : Cursor).next = c.next := Cursor.next_congr rfl rfl rfl hkind hc
      exact .inr ⟨hc, d, hsame.symm.trans hnext, h⟩

theorem ahead_le (h : Onward c e) : e.ahead ≤ c.ahead := by
  induction h with
  | refl => exact Nat.le_refl _
  | next _ hnext _ ih => exact Nat.le_trans ih (Cursor.ahead_le_of_next hnext)
  | @worded c e t hkind _ ih =>
    have hsame : Cursor.Coincide { c with current := t } c := ⟨rfl, rfl, hkind⟩
    rwa [hsame.ahead_eq] at ih

end Onward

namespace Typing

/-- **Every rule goes on token by token.** -/
def onwardCourse : Course where
  during _ _ := True
  past w v := Onward w.cursor v.cursor
  failed _ _ := True
  named w v := Onward w.cursor v.cursor
  plain _ := True
  word _ := True
  creates _ := True
  during_self _ := trivial
  past_self w := .refl w.cursor
  failed_self _ := trivial
  past_trans := .trans
  during_of_past _ _ := trivial
  failed_of_past _ _ := trivial
  during_of_failed _ := trivial
  during_of_moved _ := trivial
  failed_of_moved _ := trivial
  plain_of_kind _ := trivial
  plain_of_number _ := trivial
  plain_of_discard _ := trivial
  plain_of_word _ := trivial
  word_of_kind _ := trivial
  creates_of_word _ _ := trivial
  past_next _ hnext := .of_next hnext
  past_pair _ hnext h _ hnext' := (Onward.of_next hnext).trans (h.trans (.of_next hnext'))
  past_negated {w} minus _ := .worded (t := w.cursor.current.negated minus) rfl (.refl _)
  named_self w := .refl w.cursor
  named_next h _ hnext := h.trans (.of_next hnext)
  past_of_named := id
  past_created := by
    rintro w v u t c d e - hnext hnamed hmarked - hnext' hpast - hlast
    have hmark : Onward v.cursor u.cursor := by
      rcases hmarked with rfl | ⟨f, g, -, hopen, -, hclose, rfl⟩
      · exact .refl _
      · exact (Onward.of_next hopen).trans (.of_next hclose)
    exact (Onward.of_next hnext).trans (hnamed.trans (hmark.trans ((Onward.of_next hnext').trans
      (hpast.trans (.of_next hlast)))))
  during_of_deeper _ _ := trivial
  past_of_deeper _ h := h
  failed_of_deeper _ _ := trivial
  during_of_scope _ _ := trivial
  past_of_scope _ h := h
  failed_of_scope _ _ := trivial

end Typing

/-! ## §2. Up to a closing bracket. -/

namespace Enclosure

variable {σ α β : Type} {m : EdgeKind} {exact : Bool} {p : Enclosure m exact} {x y : Walker σ α}
  {f g : α → Walker σ β} {w v : Walk σ}

/-- The tokens up to a closing bracket before the edge. -/
def upTo (p : Enclosure m exact) (e : Cursor) (hcloses : e.current.kind.isCloser = true)
    (hbefore : p.level < e.ahead) : Enclosure .inner exact where
  twin c d := p.twin c d ∧ c.current.isFinish = false ∧ ∃ c', c.next = .ok c' ∧ Onward c' e
  edge c d := p.twin c d ∧ Cursor.Coincide c e
  level := e.ahead
  face_eq h := p.face_eq h.1
  next {c d c'} h hnext := by
    obtain ⟨htwin, -, c₁, hnext₁, honward⟩ := h
    cases hnext₁.symm.trans hnext
    obtain ⟨d', hd', hplace⟩ := p.next htwin hnext
    refine ⟨d', hd', ?_⟩
    rcases hplace with hplace | hplace
    · exact honward.cases_next.symm.imp (fun hmore => ⟨hplace, hmore⟩) fun hsame => ⟨hplace, hsame⟩
    · -- The closing bracket is before the edge.
      have hahead := honward.ahead_le
      rw [p.ahead_eq hplace] at hahead
      omega
  replace {c d s t} h hkind hface := by
    obtain ⟨htwin, hc, c', hnext, honward⟩ := h
    refine ⟨p.replace htwin hkind hface, by rwa [Token.isFinish, hkind], c', ?_, honward⟩
    rw [← hnext]
    exact Cursor.next_congr rfl rfl rfl hkind hc
  closes {c d} _ h := by
    rw [(Prod.mk.inj (p.face_eq h.1)).1, h.2.kind_eq]
    exact hcloses
  same _ h := p.face_eq h.1
  member := nofun
  ahead_eq h := h.2.ahead_eq
  size_le hexact h := p.size_le hexact (h.elim (fun h => .inl h.1) fun h => .inl h.1)
  text_of_finish {c d} h hfinish := by
    rw [Token.isFinish, h.2.kind_eq, beq_iff_eq] at hfinish
    rw [hfinish] at hcloses
    cases hcloses

/-- **What stands before a closing bracket** is read up to there, wherever the bracket stands. -/
theorem copies_closed (hx : ∀ q : Enclosure .inner exact, q.Pair w v → q.Copies 0 0 x y w v)
    (honward : ∀ a u, x.run w = .ok a u → Onward w.cursor u.cursor)
    (hcloses : ∀ a u b s, (f a).run u = .ok b s → u.cursor.current.kind.isCloser = true)
    (hf : ∀ (q : Enclosure m exact) a u t, x.run w = .ok a u → q.Twin u t → q.Copies 1 0 (f a) (g a) u t)
    (h : p.Twin w v) : p.Copies 1 0 (x >>= f) (y >>= g) w v := by
  intro b s hrun
  obtain ⟨a, u, hxw, hfa⟩ := eq_ok_of_bind hrun
  have hpath := honward a u hxw
  have hahead := hpath.ahead_le
  obtain ⟨hpast, -⟩ := hf self a u u hxw (twin_self u) b s hfa
  refine ⟨by omega, fun hlevel => ?_⟩
  -- What reads on up to the closing bracket stops before the edge.
  have hbefore : p.level < u.cursor.ahead := by omega
  -- Up to that bracket the walk is inside an enclosure of its own.
  have hpair : (p.upTo u.cursor (hcloses a u b s hfa) hbefore).Pair w v := by
    refine ⟨hpath.cases_next.symm.imp (fun hmore => ⟨h.place, hmore⟩) fun hsame => ⟨h.place, hsame⟩, h.held_eq,
      h.depth_eq⟩
  rcases (hx _ hpair a u hxw).2 (Nat.le_refl _) with ⟨hloose, hdeep⟩ | ⟨t, hy, hplace⟩
  · exact .inl ⟨hloose, tooDeep_bind hdeep g⟩
  · rw [run_bind_of_ok hy]
    have htwin : p.Twin u t := ⟨hplace.place.elim And.left And.left, hplace.held_eq, hplace.depth_eq⟩
    exact (hf p a u t hxw htwin b s hfa).2 hlevel

end Enclosure

end TypeAhead
