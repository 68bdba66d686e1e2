/-
  TypeAhead.Proofs.Walk.Enclosure — THE SAME TOKENS, UP TO AN EDGE.

  One text goes on with what stands in brackets in another one, or before a member:
  the tokens are the same up to an edge, where the second text has a closing bracket
  or a dot, whatever the first one has.  A rule that succeeds in the first text and
  goes no further than the edge never saw the difference, so in the second text it
  comes to the same.  It may be too deep there only where the second walk has less
  room than the first one.

  How far a rule goes is part of what is known of it.  Where it starts at the edge
  and takes a token it goes beyond the edge, and nothing is said of the second text.

      Copies              a rule in both texts
      copies_bind         one rule after the other
      copies_past         what follows takes a token
      copies_repeatStep   a loop
-/
import TypeAhead.Proofs.Fragment.Lockstep
import TypeAhead.Proofs.Token.Ahead
import TypeAhead.Proofs.Walk.Contract

namespace TypeAhead

open Walker Fragment

variable {σ α β γ : Type}

/-! ## §1. Places. -/

/-- The kind is that of a closing bracket. -/
def TokenKind.isCloser : TokenKind → Bool
  | closeParen | closeBracket | closeCurly => true
  | _ => false

/-- What stands at an edge in the second text. -/
inductive EdgeKind where
  /-- A closing bracket. -/
  | bracket
  /-- The closing bracket that stands there in the first text as well. -/
  | inner
  /-- A member, with which the text ends. -/
  | member
  deriving DecidableEq

/-- How two texts go on with the same tokens up to an edge.  In an `exact` one there is as much room in the
second text as in the first one. -/
structure Enclosure (m : EdgeKind) (exact : Bool) where
  /-- The cursors stand on the same token before the edge. -/
  twin : Cursor → Cursor → Prop
  /-- The cursors stand at the edge. -/
  edge : Cursor → Cursor → Prop
  /-- How much of the first text is ahead of the edge. -/
  level : Nat
  face_eq : ∀ {c d}, twin c d → d.current.face = c.current.face
  next : ∀ {c d c'}, twin c d → c.next = .ok c' → ∃ d', d.next = .ok d' ∧ (twin c' d' ∨ edge c' d')
  replace : ∀ {c d} {s t : Token}, twin c d → s.kind = c.current.kind → t.face = s.face →
    twin { c with current := s } { d with current := t }
  closes : ∀ {c d}, m ≠ .member → edge c d → d.current.kind.isCloser = true
  same : ∀ {c d}, m = .inner → edge c d → d.current.face = c.current.face
  member : ∀ {c d}, m = .member → edge c d → LastMember d ∧ c.size < d.size
  ahead_eq : ∀ {c d}, edge c d → c.ahead = level
  size_le : ∀ {c d}, exact = true → twin c d ∨ edge c d → c.size ≤ d.size
  text_of_finish : ∀ {c d}, edge c d → c.current.isFinish = true → c.current.text = ""

namespace Enclosure

variable {m : EdgeKind} {exact : Bool}

/-- A text goes on like itself, without an edge. -/
def self : Enclosure m exact where
  twin c d := d.current.face = c.current.face ∧ d.size = c.size ∧ d.offset = c.offset ∧ d.rest = c.rest
  edge _ _ := False
  level := 0
  face_eq h := h.1
  next {c d c'} h hnext := by
    obtain ⟨hface, hsize, hoffset, hrest⟩ := h
    obtain ⟨hkind, -⟩ := Prod.mk.inj hface
    cases hc : c.current.isFinish with
    | true =>
      have hd : d.current.isFinish = true := by rw [Token.isFinish, hkind]; exact hc
      rw [Cursor.next, if_pos hc] at hnext
      cases hnext
      rw [Cursor.next, if_pos hd]
      exact ⟨d, rfl, .inl ⟨hface, hsize, hoffset, hrest⟩⟩
    | false =>
      rw [Cursor.next_congr hsize hoffset hrest hkind hc]
      exact ⟨c', hnext, .inl ⟨rfl, rfl, rfl, rfl⟩⟩
  replace h _ hface := ⟨hface, h.2⟩
  closes _ := False.elim
  same _ := False.elim
  member _ := False.elim
  ahead_eq := False.elim
  size_le _ h := h.elim (fun h => Nat.le_of_eq h.2.1.symm) False.elim
  text_of_finish := False.elim

variable {p : Enclosure m exact} {w v : Walk σ}

/-- The two walks stand on the same token and hold the same. -/
structure Twin (p : Enclosure m exact) (w v : Walk σ) : Prop where
  place : p.twin w.cursor v.cursor
  held_eq : v.held = w.held
  depth_eq : exact = true → v.depth = w.depth

/-- The two walks stand on the same token or at the edge, and hold the same. -/
structure Pair (p : Enclosure m exact) (w v : Walk σ) : Prop where
  place : p.twin w.cursor v.cursor ∨ p.edge w.cursor v.cursor
  held_eq : v.held = w.held
  depth_eq : exact = true → v.depth = w.depth

/-- Walks on the same token are a pair. -/
theorem Twin.pair (h : p.Twin w v) : p.Pair w v := ⟨.inl h.place, h.held_eq, h.depth_eq⟩

/-- A walk stands where it stands itself. -/
theorem twin_self (w : Walk σ) : (self : Enclosure m exact).Twin w w :=
  ⟨⟨rfl, rfl, rfl, rfl⟩, rfl, fun _ => rfl⟩

/-- Both walks may be one level deeper. -/
theorem Pair.deeper (h : p.Pair w v) : p.Pair w.deeper v.deeper :=
  ⟨h.place, h.held_eq, fun hexact => congrArg (· + 1) (h.depth_eq hexact)⟩

/-- In an exact enclosure the second text gives no less room. -/
theorem Pair.size_le (h : p.Pair w v) (hexact : exact = true) : w.cursor.size ≤ v.cursor.size :=
  p.size_le hexact h.place

/-- At an edge a bracket closes, or a dot stands. -/
theorem closes_or_dot {c d : Cursor} (h : p.edge c d) :
    d.current.kind.isCloser = true ∨ m = .member ∧ d.current.kind = .dot := by
  by_cases hm : m = .member
  · exact .inr ⟨hm, (p.member hm h).1.dot⟩
  · exact .inl (p.closes hm h)

/-- At an edge no token of another kind stands. -/
theorem kind_ne_of_edge {kind : TokenKind} (hkind : kind.isCloser = false ∧ kind ≠ .dot) {c d : Cursor}
    (h : p.edge c d) : d.current.kind ≠ kind := by
  rintro rfl
  rcases closes_or_dot h with hcloses | ⟨-, hdot⟩
  · rw [hkind.1] at hcloses
    cases hcloses
  · exact hkind.2 hdot

/-- The same token has the same kind. -/
theorem Twin.kind_eq (h : p.Twin w v) : v.cursor.current.kind = w.cursor.current.kind :=
  (Prod.mk.inj (p.face_eq h.place)).1

/-- The same token has the same text. -/
theorem Twin.text_eq (h : p.Twin w v) : v.cursor.current.text = w.cursor.current.text :=
  (Prod.mk.inj (p.face_eq h.place)).2

/-- Tests that read only the kind and the text cannot tell the walks apart. -/
theorem Twin.test_eq {f : Cursor → β} (hf : ReadsToken f) (h : p.Twin w v) : f v.cursor = f w.cursor :=
  hf _ _ h.kind_eq h.text_eq

/-- Before the edge the walks stand on the same token. -/
theorem Pair.twin (h : p.Pair w v) (hbefore : p.level < w.cursor.ahead) : p.Twin w v := by
  rcases h.place with hplace | hplace
  · exact ⟨hplace, h.held_eq, h.depth_eq⟩
  · have := p.ahead_eq hplace
    omega

/-- At the edge of an inner enclosure, the walks stand on the same token as well. -/
theorem Pair.test_eq {q : Enclosure .inner exact} {f : Cursor → β} (hf : ReadsToken f) (h : q.Pair w v) :
    f v.cursor = f w.cursor := by
  obtain ⟨hkind, htext⟩ := Prod.mk.inj (h.place.elim q.face_eq (q.same rfl))
  exact hf _ _ hkind htext

/-! ## §2. Rules in both texts. -/

/-- If the first rule succeeds, it goes forward by `past` at least.  If it ends with `room` before the
edge, the second rule comes to the same, unless it is too deep for want of room. -/
def Copies (p : Enclosure m exact) (past room : Nat) (x y : Walker σ α) (w v : Walk σ) : Prop :=
  ∀ a u, x.run w = .ok a u → u.cursor.ahead + past ≤ w.cursor.ahead ∧
    (p.level + room ≤ u.cursor.ahead →
      exact = false ∧ (y.run v).TooDeep ∨ ∃ t, y.run v = .ok a t ∧ p.Pair u t)

variable {x y : Walker σ α} {f g : α → Walker σ β} {past room : Nat}

/-- Less may be promised: going forward by less, and with more room needed. -/
theorem Copies.imp {past' room' : Nat} (h : p.Copies past room x y w v) (hpast : past' ≤ past)
    (hroom : room ≤ room') : p.Copies past' room' x y w v := by
  intro a u hrun
  obtain ⟨hmono, hsame⟩ := h a u hrun
  exact ⟨by omega, fun hlevel => hsame (by omega)⟩

/-- What takes a token, where that is not asked for. -/
theorem Copies.still (h : p.Copies 1 room x y w v) : p.Copies 0 room x y w v :=
  h.imp (Nat.zero_le 1) (Nat.le_refl room)

/-- What is to end before the edge may end at it. -/
theorem Copies.before (h : p.Copies past 0 x y w v) : p.Copies past 1 x y w v :=
  h.imp (Nat.le_refl past) (Nat.zero_le 1)

/-- A rule that does not succeed is copied by any other one. -/
theorem copies_of_fails (h : ∀ a u, x.run w ≠ .ok a u) : p.Copies past room x y w v :=
  fun a u hrun => absurd hrun (h a u)

/-- What ends beyond the edge is not copied, whatever the second text goes on with. -/
theorem copies_beyond {n : Nat} (hx : ∀ a u, x.run w = .ok a u → u.cursor.ahead + 1 ≤ n)
    (hle : n ≤ w.cursor.ahead) (hlevel : n ≤ p.level) : p.Copies 1 0 x y w v := by
  intro a u hrun
  have hend := hx a u hrun
  exact ⟨by omega, fun hroom => by omega⟩

/-- At the edge, a rule that takes a token or has to end before the edge has nothing to copy. -/
theorem copies_of_twin (hpos : 0 < past + room)
    (htwin : ∀ (q : Enclosure m exact) t, q.Twin w t → q.Copies past room x y w t) (h : p.Pair w v) :
    p.Copies past room x y w v := by
  rcases h.place with hplace | hplace
  · exact htwin p v ⟨hplace, h.held_eq, h.depth_eq⟩
  · intro a u hrun
    obtain ⟨hmono, -⟩ := htwin self w (twin_self w) a u hrun
    have hlevel := p.ahead_eq hplace
    exact ⟨hmono, fun hroom => by omega⟩

theorem copies_pure (a : α) (h : p.Pair w v) : p.Copies 0 0 (pure a) (pure a) w v := by
  intro b u hrun
  cases hrun
  exact ⟨Nat.le_refl _, fun _ => .inr ⟨v, rfl, h⟩⟩

/-- What is too deep stays so, whatever follows. -/
theorem tooDeep_bind (h : (y.run v).TooDeep) (g : α → Walker σ β) : ((y >>= g).run v).TooDeep :=
  h.andThen g

/-- **One rule after the other.** -/
theorem copies_bind (hx : p.Copies past room x y w v)
    (hf : ∀ (q : Enclosure m exact) a u t, x.run w = .ok a u → q.Pair u t → q.Copies 0 room (f a) (g a) u t) :
    p.Copies past room (x >>= f) (y >>= g) w v := by
  intro b s hrun
  obtain ⟨a, u, hxw, hfa⟩ := eq_ok_of_bind hrun
  obtain ⟨hpast, hsame⟩ := hx a u hxw
  -- Beyond the edge, what follows goes forward in the first text alone.
  obtain ⟨hmono, -⟩ := hf self a u u hxw (twin_self u).pair b s hfa
  refine ⟨by omega, fun hlevel => ?_⟩
  rcases hsame (by omega) with ⟨hloose, hdeep⟩ | ⟨t, hy, hpair⟩
  · exact .inl ⟨hloose, tooDeep_bind hdeep g⟩
  · rw [run_bind_of_ok hy]
    exact (hf p a u t hxw hpair b s hfa).2 hlevel

/-- One rule after the other, of which the second takes a token: the first one ends before the edge. -/
theorem copies_past (hx : p.Copies 0 1 x y w v)
    (hf : ∀ (q : Enclosure m exact) a u t, x.run w = .ok a u → q.Twin u t → q.Copies 1 0 (f a) (g a) u t) :
    p.Copies 1 0 (x >>= f) (y >>= g) w v := by
  intro b s hrun
  obtain ⟨a, u, hxw, hfa⟩ := eq_ok_of_bind hrun
  obtain ⟨hpast, hsame⟩ := hx a u hxw
  obtain ⟨hmono, -⟩ := hf self a u u hxw (twin_self u) b s hfa
  refine ⟨by omega, fun hlevel => ?_⟩
  rcases hsame (by omega) with ⟨hloose, hdeep⟩ | ⟨t, hy, hpair⟩
  · exact .inl ⟨hloose, tooDeep_bind hdeep g⟩
  · rw [run_bind_of_ok hy]
    exact (hf p a u t hxw (hpair.twin (by omega)) b s hfa).2 hlevel

/-- One rule after the other, both of which end before the edge. -/
theorem copies_before (hx : p.Copies past 1 x y w v)
    (hf : ∀ (q : Enclosure m exact) a u t, x.run w = .ok a u → q.Twin u t → q.Copies 0 1 (f a) (g a) u t) :
    p.Copies past 1 (x >>= f) (y >>= g) w v := by
  apply copies_bind hx
  intro q a u t hxw h
  exact copies_of_twin (by omega) (fun q t h => hf q a u t hxw h) h

/-- A result that is changed. -/
theorem copies_map {i : α → β} (hx : p.Copies past room x y w v) :
    p.Copies past room (i <$> x) (i <$> y) w v :=
  copies_bind hx fun _ a _ _ _ h => (copies_pure (i a) h).imp (Nat.le_refl 0) (Nat.zero_le room)

/-- Rules in a row may be put together from either side. -/
theorem copies_assoc {i j : β → Walker σ γ}
    (h : p.Copies past room (x >>= fun a => f a >>= i) (y >>= fun a => g a >>= j) w v) :
    p.Copies past room (x >>= f >>= i) (y >>= g >>= j) w v := by
  have hassoc : ∀ (x : Walker σ α) (f : α → Walker σ β) (i : β → Walker σ γ) (w : Walk σ),
      (x >>= f >>= i).run w = (x >>= fun a => f a >>= i).run w :=
    fun x f i w => Walk.Outcome.andThen_assoc (x.run w) f i
  unfold Copies
  rw [hassoc, hassoc]
  exact h

/-! ## §3. Single moves. -/

/-- What fails in the first text has nothing to be copied. -/
theorem copies_fail {cause : Cause} {y : Walker σ α} : p.Copies past room (fail cause) y w v :=
  copies_of_fails fun _ _ hrun => by cases hrun

/-- Where the first rule fails there is nothing to copy. -/
theorem copies_failThen {cause : Cause} {f : α → Walker σ β} {y : Walker σ β} :
    p.Copies past room (fail cause >>= f) y w v :=
  copies_of_fails fun _ _ hrun => by cases hrun

/-- Where the first rule fails at an offset there is nothing to copy. -/
theorem copies_failAtThen {position : Nat} {cause : Cause} {f : α → Walker σ β} {y : Walker σ β} :
    p.Copies past room (failAt position cause >>= f) y w v :=
  copies_of_fails fun _ _ hrun => by cases hrun

theorem copies_failAt {position : Nat} {cause : Cause} {y : Walker σ α} :
    p.Copies past room (failAt position cause) y w v :=
  copies_of_fails fun _ _ hrun => by cases hrun

/-- What follows a look at the two places. -/
theorem copies_look {i : Cursor → α} (h : p.Copies past room (f (i w.cursor)) (g (i v.cursor)) w v) :
    p.Copies past room (look i >>= f) (look i >>= g) w v :=
  h

/-- A computation has to succeed in the second text where it does in the first one. -/
theorem copies_ofExcept {e e' : Except Fault α} (he : ∀ a, e = .ok a → e' = .ok a) (h : p.Pair w v) :
    p.Copies 0 0 (ofExcept e) (ofExcept e') w v := by
  cases e with
  | error fault => exact copies_of_fails fun _ _ hrun => by cases hrun
  | ok a =>
    rw [he a rfl]
    exact copies_pure a h

/-- What follows something that is read from the texts. -/
theorem copies_ofExceptThen {e e' : Except Fault α}
    (h : ∀ a, e = .ok a → ∃ b, e' = .ok b ∧ p.Copies past room (f a) (g b) w v) :
    p.Copies past room (ofExcept e >>= f) (ofExcept e' >>= g) w v := by
  cases e with
  | error fault => exact copies_of_fails fun _ _ hrun => by cases hrun
  | ok a =>
    obtain ⟨b, rfl, hcopies⟩ := h a rfl
    exact hcopies

/-- What follows a change of the places. -/
theorem copies_editThen {i j : Cursor → Cursor} {f g : Unit → Walker σ β}
    (hahead : (i w.cursor).ahead ≤ w.cursor.ahead)
    (h : p.Copies past room (f ()) (g ()) { w with cursor := i w.cursor } { v with cursor := j v.cursor }) :
    p.Copies past room (edit i >>= f) (edit j >>= g) w v := by
  intro b u hrun
  obtain ⟨hpast, hsame⟩ := h b u hrun
  have hpast : u.cursor.ahead + past ≤ (i w.cursor).ahead := hpast
  exact ⟨by omega, hsame⟩

/-- What follows a look at the next token: it is the same, or the walks come to the edge. -/
theorem copies_peekThen {f g : Token → Walker σ α} (h : p.Twin w v)
    (hf : ∀ c d, w.cursor.next = .ok c → p.twin c d ∨ p.edge c d →
      p.Copies past room (f c.current) (g d.current) w v) :
    p.Copies past room (ofExcept w.cursor.peek >>= f) (ofExcept v.cursor.peek >>= g) w v := by
  apply copies_ofExceptThen
  intro next hnext
  unfold Cursor.peek at hnext ⊢
  cases hc : w.cursor.next with
  | error fault =>
    rw [hc] at hnext
    cases hnext
  | ok c =>
    rw [hc] at hnext
    cases hnext
    obtain ⟨d, hd, hplace⟩ := p.next h.place hc
    rw [hd]
    exact ⟨d.current, rfl, hf c d hc hplace⟩

/-- Going on leads to the next token in both texts, or to the edge. -/
theorem copies_advance (h : p.Twin w v) : p.Copies 0 0 advance advance w v := by
  intro _ u hrun
  obtain ⟨c, hnext, rfl⟩ := eq_ok_of_advance hrun
  obtain ⟨d, hnext', hplace⟩ := p.next h.place hnext
  exact ⟨Cursor.ahead_le_of_next hnext, fun _ => .inr ⟨_, run_advance hnext', hplace, h.held_eq, h.depth_eq⟩⟩

/-- Past a token that is not the end of the text. -/
theorem copies_advance_past (h : p.Twin w v) (hfinish : w.cursor.current.isFinish = false) :
    p.Copies 1 0 advance advance w v := by
  intro a u hrun
  refine ⟨?_, (copies_advance h a u hrun).2⟩
  obtain ⟨c, hnext, rfl⟩ := eq_ok_of_advance hrun
  exact Cursor.ahead_next hfinish hnext

/-- A rule that goes on from the edge goes beyond it, whatever the second text is taken for. -/
theorem copies_over {c d : Cursor} {f : Unit → Walker σ β} {y : Walker σ β} (hpos : 0 < past + room)
    (hnext : w.cursor.next = .ok c) (hedge : p.edge c d)
    (hf : ∀ u b s, u.cursor = c → (f ()).run u = .ok b s → s.cursor.ahead + past ≤ c.ahead) :
    p.Copies past room (advance >>= f) y w v := by
  intro b s hrun
  obtain ⟨_, u, hadvance, hrest⟩ := eq_ok_of_bind hrun
  have hu : u.cursor = c := by
    simp only [advance, move, hnext] at hadvance
    cases hadvance
    rfl
  have hpast := hf u b s hu hrest
  have hlevel := p.ahead_eq hedge
  have hle := Cursor.ahead_le_of_next hnext
  exact ⟨by omega, fun hroom => by omega⟩

/-- What follows a demand knows that it is met. -/
theorem copies_demandThen {test : Cursor → Bool} {cause : Cause} {f g : Unit → Walker σ β}
    (hreads : ReadsToken test) (h : p.Twin w v)
    (hf : test w.cursor = true → p.Copies past room (f ()) (g ()) w v) :
    p.Copies past room (demand test cause >>= f) (demand test cause >>= g) w v := by
  unfold Copies
  rw [run_bind, run_bind, run_demand, run_demand, h.test_eq hreads]
  cases htest : test w.cursor with
  | true => exact hf htest
  | false => exact nofun

/-- What follows a demand knows that it is met. -/
theorem copies_requireThen {kind : TokenKind} {cause : Cause} {f g : Unit → Walker σ β} (h : p.Twin w v)
    (hf : w.cursor.current.kind = kind → p.Copies past room (f ()) (g ()) w v) :
    p.Copies past room (require kind cause >>= f) (require kind cause >>= g) w v :=
  copies_demandThen (readsToken_isKind kind) h fun htest => hf (by simpa [Cursor.isKind] using htest)

/-- A token of a kind is gone past in both texts. -/
theorem copies_expect {kind : TokenKind} (hkind : kind ≠ .finish) (cause : Cause) (h : p.Twin w v) :
    p.Copies 1 0 (expect kind cause : Walker σ Unit) (expect kind cause) w v := by
  apply copies_requireThen h
  intro hw
  apply copies_advance_past h
  simpa [Token.isFinish, hw] using hkind

/-- What follows a test that has to hold. -/
theorem copies_unless {b b' : Bool} {x y : Walker σ Unit} {f g : Unit → Walker σ β} (hb : b' = b)
    (hx : ∀ a u, x.run w ≠ .ok a u) (hf : b = true → p.Copies past room (f ()) (g ()) w v) :
    p.Copies past room (if b = true then f () else x >>= f) (if b' = true then g () else y >>= g) w v := by
  rw [hb]
  cases b with
  | true => exact hf rfl
  | false =>
    apply copies_of_fails
    intro a u hrun
    obtain ⟨a, u, hxw, -⟩ := eq_ok_of_bind hrun
    exact hx a u hxw

/-! ## §4. Choices. -/

/-- A rule that takes a token where a test holds, and else something that may end where it starts.  Nothing
that stands at an edge passes the test. -/
theorem copies_choose {i : Cursor → γ} {P : γ → Prop} [DecidablePred P] {x y z z' : γ → Walker σ α}
    (hreads : ReadsToken fun c => decide (P (i c)))
    (hstops : ∀ c d, p.edge c d → ¬ P (i d)) (h : p.Pair w v)
    (hx : ∀ (q : Enclosure m exact) t, q.Twin w t → P (i w.cursor) →
      q.Copies 1 0 (x (i w.cursor)) (y (i t.cursor)) w t)
    (hz : ¬ P (i w.cursor) → p.Copies 0 0 (z (i w.cursor)) (z' (i v.cursor)) w v) :
    p.Copies 0 0 (look i >>= fun b => if P b then x b else z b)
      (look i >>= fun b => if P b then y b else z' b) w v := by
  apply copies_look
  by_cases hP : P (i w.cursor)
  · rw [if_pos hP]
    rcases h.place with hplace | hplace
    · have htwin : p.Twin w v := ⟨hplace, h.held_eq, h.depth_eq⟩
      have hP' : P (i v.cursor) := (decide_eq_decide.1 (htwin.test_eq hreads)).2 hP
      rw [if_pos hP']
      exact (hx p v htwin hP).still
    · intro a u hrun
      -- In the first text, the rule goes beyond the edge.
      obtain ⟨hmono, -⟩ := hx self w (twin_self w) hP a u hrun
      have hlevel := p.ahead_eq hplace
      exact ⟨by omega, fun hroom => by omega⟩
  -- What the first text does not have, the second one has neither there nor at the edge.
  · have hP' : ¬ P (i v.cursor) := by
      rcases h.place with hplace | hplace
      · have htwin : p.Twin w v := ⟨hplace, h.held_eq, h.depth_eq⟩
        exact fun hP' => hP ((decide_eq_decide.1 (htwin.test_eq hreads)).1 hP')
      · exact hstops _ _ hplace
    rw [if_neg hP, if_neg hP']
    exact hz hP

/-! ## §5. Nesting. -/

/-- Between two changes of what the walks hold. -/
theorem copies_between {enter leave : Walk σ → Walk σ} (henter : ∀ w, (enter w).cursor = w.cursor)
    (hleave : ∀ w, (leave w).cursor = w.cursor)
    (hheld : ∀ w v : Walk σ, v.held = w.held → (leave v).held = (leave w).held)
    (hdepth : ∀ w v : Walk σ, v.depth = w.depth → (leave v).depth = (leave w).depth)
    (hx : p.Copies past room x y (enter w) (enter v)) :
    p.Copies past room (between enter leave x) (between enter leave y) w v := by
  intro a u hrun
  obtain ⟨s, hxw, rfl⟩ := eq_ok_of_between hrun
  obtain ⟨hpast, hsame⟩ := hx a s hxw
  rw [henter] at hpast
  rw [hleave]
  refine ⟨hpast, fun hlevel => ?_⟩
  simp only [between]
  -- To enter and to leave does not move the walk, so it stays in place.
  rcases hsame hlevel with ⟨hloose, position, t, hdeep⟩ | ⟨t, hy, hpair⟩
  · rw [hdeep]
    exact .inl ⟨hloose, position, leave t, rfl⟩
  · rw [hy]
    refine .inr ⟨leave t, rfl, ?_, hheld s t hpair.held_eq, fun hexact => hdepth s t (hpair.depth_eq hexact)⟩
    rw [hleave, hleave]
    exact hpair.place

/-- **One level deeper.**  Only in the second text there may be no room for it. -/
theorem copies_nested (hdepth : exact = true → v.depth = w.depth)
    (hx : p.Copies past room x y w.deeper v.deeper) :
    p.Copies past room (nested x) (nested y) w v := by
  intro a u hrun
  have hbetween : p.Copies past room (between Walk.deeper Walk.shallower x)
      (between Walk.deeper Walk.shallower y) w v :=
    copies_between (fun _ => rfl) (fun _ => rfl) (fun _ _ h => h) (fun _ _ h => congrArg (· - 1) h) hx
  unfold nested at hrun ⊢
  dsimp only at hrun ⊢
  -- The first walk is not too deep; the second one may be, unless both have the same depth.
  by_cases hw : Limits.nesting ≤ w.depth
  · rw [if_pos hw] at hrun
    cases hrun
  · rw [if_neg hw] at hrun
    obtain ⟨hpast, hsame⟩ := hbetween a u hrun
    refine ⟨hpast, fun hlevel => ?_⟩
    by_cases hv : Limits.nesting ≤ v.depth
    · rw [if_pos hv]
      refine .inl ⟨Bool.eq_false_iff.2 fun hexact => hw ?_, _, v, rfl⟩
      rwa [← hdepth hexact]
    · rw [if_neg hv]
      exact hsame hlevel

/-! ## §6. Loops. -/

/-- The rounds of a loop.  Unless they have to agree exactly, the second text may have fewer of them. -/
theorem copies_repeatUpTo {step step' : α → Walker σ (Bool × α)}
    (hstep : ∀ (q : Enclosure m exact) a u t, q.Pair u t → q.Copies 0 room (step a) (step' a) u t) {k k' : Nat}
    (hk : exact = true → k ≤ k') (a : α) (h : p.Pair w v) :
    p.Copies 0 room (repeatUpTo step k a) (repeatUpTo step' k' a) w v := by
  -- By induction on the rounds of the first walk, at any enclosure.
  induction k generalizing k' p a w v with
  | zero => exact copies_fail
  | succ k ih =>
    have hround : ∀ k', (exact = true → k ≤ k') →
        p.Copies 0 room (repeatUpTo step (k + 1) a) (repeatUpTo step' (k' + 1) a) w v := by
      intro k' hk
      apply copies_bind (hstep p a w v h)
      intro q next u t _ h
      obtain ⟨again, b⟩ := next
      cases again with
      | true => exact ih hk b h
      | false => exact (copies_pure b h).imp (Nat.le_refl 0) (Nat.zero_le room)
    cases k' with
    | zero =>
      -- With fewer rounds the second loop may run out, which the loose relation allows.
      have hloose : exact = false := Bool.eq_false_iff.2 fun hexact => Nat.not_succ_le_zero k (hk hexact)
      intro b s hrun
      exact ⟨(hround k (fun _ => Nat.le_refl k) b s hrun).1, fun _ => .inl ⟨hloose, _, v, rfl⟩⟩
    | succ k' => exact hround k' fun hexact => Nat.le_of_succ_le_succ (hk hexact)

/-- **A loop.**  In the second text its budget may be used up sooner, if there is less room. -/
theorem copies_repeatStep {step step' : α → Walker σ (Bool × α)} (a : α)
    (hstep : ∀ (q : Enclosure m exact) a u t, q.Pair u t → q.Copies 0 room (step a) (step' a) u t)
    (h : p.Pair w v) : p.Copies 0 room (repeatStep step a) (repeatStep step' a) w v :=
  copies_repeatUpTo hstep (fun hexact => Nat.add_le_add_right (h.size_le hexact) 2) a h

/-- A loop that ends before the edge. -/
theorem copies_loop_before {step step' : α → Walker σ (Bool × α)} (a : α)
    (hstep : ∀ (q : Enclosure m exact) a u t, q.Twin u t → q.Copies 0 1 (step a) (step' a) u t) (h : p.Twin w v) :
    p.Copies 0 1 (repeatStep step a) (repeatStep step' a) w v := by
  apply copies_repeatStep a _ h.pair
  intro q a u t h
  exact copies_of_twin (by omega) (fun q t h => hstep q a u t h) h

/-- The last round is the one that does not ask for another. -/
theorem last_of_repeatUpTo {step : α → Walker σ (Bool × α)} {k : Nat} {a b : α} {u : Walk σ}
    (hrun : (repeatUpTo step k a).run w = .ok b u) : ∃ c t, (step c).run t = .ok (false, b) u := by
  induction k generalizing a w with
  | zero => cases hrun
  | succ k ih =>
    obtain ⟨⟨again, c⟩, t, hstep, hrun⟩ := eq_ok_of_bind hrun
    cases again with
    | true => exact ih hrun
    | false =>
      cases hrun
      exact ⟨a, w, hstep⟩

/-- A loop that has come to its end went a last round. -/
theorem last_round {step : α → Walker σ (Bool × α)} {a b : α} {u : Walk σ}
    (hrun : (repeatStep step a).run w = .ok b u) : ∃ c t, (step c).run t = .ok (false, b) u :=
  last_of_repeatUpTo (k := w.cursor.size + 2) hrun

/-! ## §7. Names. -/

/-- The `_` after `out` takes a token. -/
theorem copies_discard (h : p.Pair w v) :
    p.Copies 0 0 (do
      demand (fun c => c.current.text == "_") .outWithoutDiscard
      advance
      pure true : Walker σ Bool) (do
      demand (fun c => c.current.text == "_") .outWithoutDiscard
      advance
      pure true) w v := by
  have htext : ReadsToken fun c => c.current.text == "_" := by
    intro c d _ htext
    simp only [htext]
  cases hfinish : w.cursor.current.isFinish with
  | false =>
    -- Before the end of the text the discard is a token like others.
    apply Copies.still
    apply copies_of_twin (by omega) _ h
    intro q t h
    apply copies_demandThen htext h
    intro _
    exact copies_bind (copies_advance_past h hfinish) fun _ _ _ _ _ h => copies_pure true h
  | true =>
    rcases h.place with hplace | hplace
    · have htwin : p.Twin w v := ⟨hplace, h.held_eq, h.depth_eq⟩
      apply copies_demandThen htext htwin
      intro _
      exact copies_bind (copies_advance htwin) fun _ _ _ _ _ h => copies_pure true h
    · -- The end of the text is no discard.
      apply copies_of_fails
      intro a u hrun
      obtain ⟨_, _, hdemand, -⟩ := eq_ok_of_bind hrun
      rw [run_demand, p.text_of_finish hplace hfinish] at hdemand
      cases hdemand

/-- What follows an `out _` that may be there. -/
theorem copies_discardedOutThen {f g : Bool → Walker σ α} (h : p.Twin w v)
    (htrue : ∀ (q : Enclosure m exact) u t, q.Pair u t → q.Copies 0 0 (f true) (g true) u t)
    (hfalse : p.Copies 1 0 (f false) (g false) w v) :
    p.Copies 1 0 (discardedOut >>= f) (discardedOut >>= g) w v := by
  apply copies_assoc
  apply copies_look
  rw [h.test_eq (readsToken_isOneOf outWords [])]
  by_cases hout : w.cursor.isOneOf outWords [] = true
  · rw [if_pos hout]
    -- The word is not the end of the text, so it is gone past in both.
    have hfinish : w.cursor.current.isFinish = false := by
      cases hkind : w.cursor.current.kind <;> simp_all [Cursor.isOneOf, Token.isFinish]
    apply copies_assoc
    apply copies_bind (copies_advance_past h hfinish)
    intro q _ u t _ h
    apply copies_bind (copies_discard h)
    intro q found u t hfound h
    obtain ⟨_, _, -, hfound⟩ := eq_ok_of_bind hfound
    obtain ⟨_, _, -, hfound⟩ := eq_ok_of_bind hfound
    cases hfound
    exact htrue q u t h
  · rw [if_neg hout]
    exact hfalse

/-- A name between dots, which a member at the edge would go on with. -/
theorem copies_dottedName (hm : m ≠ .member) (h : p.Pair w v) :
    p.Copies 0 0 (dottedName : Walker σ String) dottedName w v := by
  apply copies_repeatStep "" _ h
  intro q name u t h
  apply copies_choose _ _ h
  · intro q t h hpart
    rw [h.text_eq]
    have hfinish : u.cursor.current.isFinish = false := by
      cases hkind : u.cursor.current.kind <;> simp_all [Token.isFinish]
    exact copies_bind (copies_advance_past h hfinish) fun _ _ _ _ _ h => copies_pure _ h
  · intro _
    exact copies_pure _ h
  · intro c d hkind _
    simp only [hkind]
  · intro c d hedge
    have hcloses := q.closes hm hedge
    cases hkind : d.current.kind <;> simp_all [TokenKind.isCloser]

/-- The name after `as`, which a member at the edge would go on with. -/
theorem copies_aliasName (hm : m ≠ .member) (dotted : Bool) (h : p.Twin w v) :
    p.Copies 0 0 (aliasName dotted : Walker σ String) (aliasName dotted) w v := by
  apply copies_requireThen h
  intro hkind
  cases dotted with
  | true => exact copies_map (copies_dottedName hm h.pair)
  | false =>
    apply copies_look
    dsimp only
    rw [h.text_eq]
    exact copies_bind (copies_advance h) fun _ _ _ _ _ h => copies_pure _ h

/-- At the edge of an inner enclosure there is no name in either text. -/
theorem copies_aliasName_inner {q : Enclosure .inner exact} (dotted : Bool) (h : q.Pair w v) :
    q.Copies 0 0 (aliasName dotted : Walker σ String) (aliasName dotted) w v := by
  rcases h.place with hplace | hplace
  · exact copies_aliasName (by decide) dotted ⟨hplace, h.held_eq, h.depth_eq⟩
  · apply copies_of_fails
    intro name u hrun
    obtain ⟨_, t, hrequire, -⟩ := eq_ok_of_bind hrun
    have hnone : w.cursor.isKind .identifier = false := by
      rw [← h.test_eq (readsToken_isKind .identifier)]
      simpa [Cursor.isKind] using kind_ne_of_edge (by decide) hplace
    rw [require, run_demand, hnone] at hrequire
    cases hrequire

end Enclosure

end TypeAhead
