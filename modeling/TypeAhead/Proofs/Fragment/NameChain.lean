/-
  TypeAhead.Proofs.Fragment.NameChain — WHERE A CHAIN OF NAMES IS STILL OPEN.

  A chain of names goes on with any name that follows it, be it meant as a word of
  the grammar.  Whether a chain is open shows in the kinds of the tokens before: a
  name, and after it dots and pluses, each with a name after it or not.

      openable_of_leaves    past the token at which a rule was left, an operand may open
-/
import TypeAhead.Fragment.Grammar

namespace TypeAhead.Fragment

/-! ## §1. Open chains. -/

/-- The kinds that join the names of a chain. -/
def joins (kind : TokenKind) : Bool := kind == .dot || kind == .plus

/-- The walk looks for what joins names by the kind of the token. -/
theorem Rule.isJoint_eq (c : Cursor) : Rule.isJoint c = joins c.current.kind := by
  cases hkind : c.current.kind <;> simp [Rule.isJoint, Cursor.isAny, joins, hkind]

theorem isFinish_of_joins {t : Token} (h : joins t.kind = true) : t.isFinish = false := by
  cases hkind : t.kind <;> simp_all [joins, Token.isFinish]

/-- Whether tokens of the kinds `past`, the last one first, end in an open chain of names. -/
def endsInChain : List TokenKind → Bool
  | .identifier :: kind :: past => joins kind && endsInChain (kind :: past)
  | kind :: past => joins kind && (past.head? == some .identifier || endsInChain past)
  | [] => false

/-- Most tokens end every chain. -/
theorem endsInChain_cons_of_not {kind : TokenKind} {past : List TokenKind}
    (hjoins : joins kind = false) (hname : kind ≠ .identifier) :
    endsInChain (kind :: past) = false := by
  rw [endsInChain.eq_2 _ _ (fun _ _ h _ => absurd h hname), hjoins, Bool.false_and]

theorem endsInChain_joint {kind : TokenKind} {past : List TokenKind} (hjoins : joins kind = true) :
    endsInChain (kind :: past) = (past.head? == some .identifier || endsInChain past) := by
  have hname : kind ≠ .identifier := by
    rintro rfl
    cases hjoins
  rw [endsInChain.eq_2 _ _ (fun _ _ h _ => absurd h hname), hjoins, Bool.true_and]

/-- A name is part of an open chain if the token before it joins it to one. -/
theorem endsInChain_name {kind : TokenKind} {past : List TokenKind} :
    endsInChain (.identifier :: kind :: past) = (joins kind && endsInChain (kind :: past)) := rfl

theorem endsInChain_name_of_not {past : List TokenKind} (h : endsInChain past = false) :
    endsInChain (.identifier :: past) = false := by
  cases past with
  | nil => rfl
  | cons kind past => rw [endsInChain_name, h, Bool.and_false]

/-- A chain of names that is open stays so whatever comes before it. -/
theorem endsInChain_append {past : List TokenKind} (h : endsInChain past = true)
    (before : List TokenKind) : endsInChain (past ++ before) = true := by
  -- From the end of the text backwards: a name needs a joint before it, and a joint a name or a chain.
  induction past with
  | nil => cases h
  | cons kind past ih =>
    by_cases hname : kind = .identifier
    · subst hname
      cases past with
      | nil => cases h
      | cons kind past =>
        rw [endsInChain_name, Bool.and_eq_true] at h
        rw [List.cons_append, List.cons_append, endsInChain_name, h.1, Bool.true_and]
        exact ih h.2
    · cases hjoins : joins kind with
      | false => rw [endsInChain_cons_of_not hjoins hname] at h; cases h
      | true =>
        rw [endsInChain_joint hjoins, Bool.or_eq_true] at h
        rw [List.cons_append, endsInChain_joint hjoins, Bool.or_eq_true]
        refine h.imp (fun hhead => ?_) ih
        cases past with
        | nil => cases hhead
        | cons kind past => exact hhead

/-! ## §2. Where operands open and where rules are left. -/

/-- An operand may open after tokens of these kinds: no chain goes on with its first token, and
if a name stands right before it, no chain went on with that one. -/
structure Openable (past : List TokenKind) : Prop where
  name : endsInChain (.identifier :: past) = false
  word : ∀ before, past = .identifier :: before → endsInChain before = false

/-- A rule may be left at a token of the kind `next` after tokens of the kinds `past`: a chain of
names is not left where it could go on. -/
structure Leaves (past : List TokenKind) (next : TokenKind) : Prop where
  joint : joins next = true → past.head? ≠ some .identifier ∧ endsInChain past = false
  name : next = .identifier → endsInChain past = false

variable {past : List TokenKind} {kind next : TokenKind}

theorem openable_nil : Openable [] := ⟨rfl, fun _ h => absurd h nofun⟩

/-- No chain is open where an operand may open. -/
theorem Openable.endsInChain (h : Openable past) : endsInChain past = false := by
  cases past with
  | nil => rfl
  | cons kind past =>
    by_cases hname : kind = .identifier
    · subst hname
      exact endsInChain_name_of_not (h.word past rfl)
    · cases hjoins : joins kind with
      | false => exact endsInChain_cons_of_not hjoins hname
      | true =>
        have := h.name
        rwa [endsInChain_name, hjoins, Bool.true_and] at this

/-- An operand may open after most tokens. -/
theorem openable_cons_of_not (hjoins : joins kind = false) (hname : kind ≠ .identifier) :
    Openable (kind :: past) := by
  refine ⟨?_, fun before h => absurd (List.cons.inj h).1 hname⟩
  rw [endsInChain_name, hjoins, Bool.false_and]

/-- Past an operator that does not join names, an operand may open if it may before. -/
theorem Openable.cons (h : Openable past) (hjoins : joins kind = false) :
    Openable (kind :: past) := by
  refine ⟨by rw [endsInChain_name, hjoins, Bool.false_and], ?_⟩
  intro before hbefore
  rw [← (List.cons.inj hbefore).2]
  exact h.endsInChain

/-- **Past the token at which a rule was left, an operand may open.** -/
theorem openable_of_leaves (h : Leaves past next) : Openable (next :: past) := by
  refine ⟨?_, ?_⟩
  · rw [endsInChain_name]
    cases hjoins : joins next with
    | false => rfl
    | true =>
      obtain ⟨hhead, hpast⟩ := h.joint hjoins
      rw [endsInChain_joint hjoins, hpast]
      simpa using hhead
  · intro before hbefore
    obtain ⟨rfl, rfl⟩ := List.cons.inj hbefore
    exact h.name rfl

/-- A rule may be left after a token that neither names nor joins. -/
theorem leaves_of_closed (hjoins : joins kind = false) (hname : kind ≠ .identifier) :
    Leaves (kind :: past) next := by
  have hpast : Fragment.endsInChain (kind :: past) = false := endsInChain_cons_of_not hjoins hname
  exact ⟨fun _ => ⟨by simpa using hname, hpast⟩, fun _ => hpast⟩

/-- After a name, a rule may be left at a token that does not join it. -/
theorem leaves_of_not_joins (hjoins : joins next = false)
    (h : next = .identifier → Fragment.endsInChain past = false) : Leaves past next :=
  ⟨fun h => absurd (hjoins.symm.trans h) nofun, h⟩

end TypeAhead.Fragment
