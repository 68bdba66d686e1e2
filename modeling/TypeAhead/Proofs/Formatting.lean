/-
  TypeAhead.Proofs.Formatting — BLANKS DO NOT MATTER.

  Where the blanks between the tokens of a text are changed, with one at least
  between any two, the text has the same tokens.  All that reads it reads tokens:
  as an expression it has the same type or the same fault, and what is located in it
  starts at the same token.

      concur_compile          twins have the same type or failure
      concur_locate           and fragments at operands that correspond, or the same refusal
      formatting_invariant    both, with the tokens
-/
import TypeAhead.Proofs.Fragment.Answer
import TypeAhead.Proofs.Typing.SameType
import TypeAhead.Proofs.Walk.Abreast

namespace TypeAhead

open Twins

variable {tokens tokens' : List Token} {text text' : String}

/-! ## §1. Types. -/

/-- **Twins have the same type**, or no type for the same cause. -/
theorem concur_compile {p : Twins} (s : Typing.Setting)
    (h : Agree p.place (fun c d => ∃ n, p.alike n c d) (Cursor.open? text.toList)
      (Cursor.open? text'.toList)) :
    Concur p.place Eq (s.compile text) (s.compile text') := by
  unfold Typing.Setting.compile
  generalize Cursor.open? text.toList = o at h
  generalize Cursor.open? text'.toList = q at h
  cases h with
  | error hcause hplace => exact .error ⟨hcause, hplace⟩
  | ok h =>
    obtain ⟨n, h⟩ := h
    exact Typing.same_typeOf s h

/-- Texts with the same tokens start at a first token that is the same. -/
theorem agree_abreast (h : tokenize text = .ok tokens) (h' : tokenize text' = .ok tokens')
    (hface : tokens'.map Token.face = tokens.map Token.face) :
    Agree (abreast tokens tokens' _ _ hface ⟨length_of_tokenize h, length_of_tokenize h'⟩).place
      (fun c d => ∃ n, (abreast tokens tokens' _ _ hface
        ⟨length_of_tokenize h, length_of_tokenize h'⟩).alike n c d)
      (Cursor.open? text.toList) (Cursor.open? text'.toList) := by
  obtain ⟨c, d, n, hopen, hopen', -, -, habreast⟩ := abreast_of_tokenize h h' hface
  rw [hopen, hopen']
  exact .ok ⟨n, habreast⟩

/-- **Texts with the same tokens have the same type**, or no type for the same cause. -/
theorem same_compile (s : Typing.Setting) (h : tokenize text = .ok tokens)
    (h' : tokenize text' = .ok tokens') (hface : tokens'.map Token.face = tokens.map Token.face) :
    Concur (AtSame tokens tokens') Eq (s.compile text) (s.compile text') :=
  concur_compile s (agree_abreast h h' hface)

/-! ## §2. Fragments. -/

/-- Two fragments are stopped by the same cause, if by any, and start at tokens that correspond, or
are all of their texts. -/
structure SameFragment (place : Nat → Nat → Prop) (text text' : String) (r r' : Fragment) : Prop where
  stoppedBy : Option.Rel (fun f f' => f'.cause = f.cause ∧ place f.position f'.position) r.stoppedBy
    r'.stoppedBy
  start : place r.start r'.start ∨ (r.start = 0 ∧ r.text = text) ∧ r'.start = 0 ∧ r'.text = text'

namespace Fragment

/-- The operands that are open when the walk of the text is over. -/
def openAtEnd (parsing : Parsing) (text : String) : List Nat :=
  match Cursor.open? text.toList with
  | .error _ => []
  | .ok c => (walk parsing c).walk.held

/-- What stops two walks: faults of the same cause at places that correspond, or nothing. -/
abbrev SameStop (place : Nat → Nat → Prop) : Option Fault → Option Fault → Prop :=
  Option.Rel fun f f' => f'.cause = f.cause ∧ place f.position f'.position

/-- Twins are walked alike from the first token on. -/
theorem same_walk {p : Twins} (parsing : Parsing) {n : Nat} {c d : Cursor} (h : p.alike n c d) :
    p.Same (Rule.Stacks p) 0 (Read c n) (walk parsing c) (walk parsing d) :=
  (Rule.same_run p parsing (Rule.calls_le_budget (p.le_size h).1)
    (Rule.calls_le_budget (p.le_size h).2)).read (r := .conditional) nofun (Nat.le_refl _)
    (⟨h, ⟨rfl, rfl⟩, .nil⟩ : p.Paired (Rule.Stacks p) 0 n ⟨c, 0, []⟩ ⟨d, 0, []⟩)

/-- **Twins have fragments at operands that correspond**, or are refused alike. -/
theorem concur_locate {p : Twins} (parsing : Parsing) {R : Fragment → Fragment → Prop}
    (h : Agree p.place (fun c d => ∃ n, p.alike n c d) (Cursor.open? text.toList)
      (Cursor.open? text'.toList))
    (hR : ∀ {stoppedBy stoppedBy'},
      Rule.Stacks p (openAtEnd parsing text) (openAtEnd parsing text') →
      SameStop p.place stoppedBy stoppedBy' →
      R (ofOpen text.toList (openAtEnd parsing text) stoppedBy)
        (ofOpen text'.toList (openAtEnd parsing text') stoppedBy')) :
    Concur p.place R (locate parsing text) (locate parsing text') := by
  unfold openAtEnd at hR
  unfold locate
  dsimp only
  generalize Cursor.open? text.toList = o at h hR ⊢
  generalize Cursor.open? text'.toList = q at h hR ⊢
  cases h with
  -- Where the first token cannot be read nothing is open, and the fragment is empty.
  | error hcause hplace => exact .ok (hR .nil (.some ⟨hcause, hplace⟩))
  | @ok c d h =>
    obtain ⟨n, h⟩ := h
    -- Otherwise both walks stop alike, with stacks that correspond.
    have hwalk := same_walk parsing h
    dsimp only at hR ⊢
    generalize walk parsing c = o at hwalk hR ⊢
    generalize walk parsing d = q at hwalk hR ⊢
    cases hwalk with
    | ok h _ => exact .ok (hR h.held .none)
    | @error failure failure' _ _ _ h hf =>
      cases failure <;> cases failure' <;> try exact hf.elim
      · exact .ok (hR h.held (.some hf))
      · exact .error hf

theorem sameFragment_ofOpen {p : Twins} {starts starts' : List Nat} {stoppedBy stoppedBy' : Option Fault}
    (hstarts : Rule.Stacks p starts starts') (hstop : SameStop p.place stoppedBy stoppedBy') :
    SameFragment p.place text text' (ofOpen text.toList starts stoppedBy)
      (ofOpen text'.toList starts' stoppedBy') := by
  refine ⟨hstop, ?_⟩
  cases hstarts with
  | nil => exact .inr ⟨⟨rfl, text_of_nil text _⟩, rfl, text_of_nil text' _⟩
  | cons hplace _ => exact .inl hplace

/-- **In texts with the same tokens the same fragment is located.** -/
theorem same_locate (parsing : Parsing) (h : tokenize text = .ok tokens)
    (h' : tokenize text' = .ok tokens') (hface : tokens'.map Token.face = tokens.map Token.face) :
    Concur (AtSame tokens tokens') (SameFragment (AtSame tokens tokens') text text')
      (locate parsing text) (locate parsing text') :=
  concur_locate parsing (agree_abreast h h' hface) sameFragment_ofOpen

end Fragment

/-! ## §3. Formatting. -/

/-- **Formatting changes nothing.**  Where the tokens of a text are written with blanks between them,
and nothing else, the new text has the same tokens; it is an expression of the same type in every
setting or fails for the same cause at the same token; and it has a fragment that starts at the same
token and is stopped for the same cause, or is refused as the text is. -/
theorem formatting_invariant {spaced : String} (h : tokenize text = .ok tokens)
    (hspaced : Spaced (wordings tokens) spaced.toList) :
    ∃ tokens', tokenize spaced = .ok tokens' ∧ tokens'.map Token.face = tokens.map Token.face ∧
      (∀ s : Typing.Setting,
        Concur (AtSame tokens tokens') Eq (s.compile text) (s.compile spaced)) ∧
      ∀ parsing, Concur (AtSame tokens tokens') (SameFragment (AtSame tokens tokens') text spaced)
        (Fragment.locate parsing text) (Fragment.locate parsing spaced) := by
  obtain ⟨tokens', h', hface⟩ := tokenize_of_spaced h hspaced
  exact ⟨tokens', h', hface, fun s => same_compile s h h' hface,
    fun parsing => Fragment.same_locate parsing h h' hface⟩

/-- A comparison, with a line to each of its tokens. -/
theorem formatting_invariant_of_comparison : ∃ tokens, tokenize "x>=1.5" = .ok tokens ∧
    Spaced (wordings tokens) "x\n>=\n1.5".toList ∧
    ∃ tokens', tokenize "x\n>=\n1.5" = .ok tokens' ∧
      tokens'.map Token.face = tokens.map Token.face ∧
      (∀ s : Typing.Setting,
        Concur (AtSame tokens tokens') Eq (s.compile "x>=1.5") (s.compile "x\n>=\n1.5")) ∧
      ∀ parsing, Concur (AtSame tokens tokens')
        (SameFragment (AtSame tokens tokens') "x>=1.5" "x\n>=\n1.5")
        (Fragment.locate parsing "x>=1.5") (Fragment.locate parsing "x\n>=\n1.5") := by
  have h : tokenize "x>=1.5" = .ok [⟨.identifier, "x", 0⟩, ⟨.greaterThanEqual, ">=", 1⟩,
      ⟨.realLiteral, "1.5", 3⟩, ⟨.finish, "", 6⟩] := rfl
  have hspaced : Spaced ["x", ">=", "1.5"]
      ("x".toList ++ (['\n'] ++ (">=".toList ++ (['\n'] ++ "1.5".toList)))) :=
    .cons nofun (List.forall_mem_singleton.2 rfl)
      (.cons nofun (List.forall_mem_singleton.2 rfl) (.single "1.5"))
  exact ⟨_, h, hspaced, formatting_invariant h hspaced⟩

end TypeAhead
