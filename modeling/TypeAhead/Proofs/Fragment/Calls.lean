/-
  TypeAhead.Proofs.Fragment.Calls — HOW MANY CALLS A WALK HAS UNDER WAY AT ONCE.

  `Rule.run` has a budget that is spent on calls and given back when they return.
  Between two nested rules every rule is under way at most once, save for a member
  and the chain of names that may call it again: those two call each other without
  coming past a nested rule, with at least one token read each time.  So the calls
  under way are bounded by the depth and by the tokens ahead together.

  With that many calls in the budget, twin walks fail alike to the last detail.

      same_body       the bodies of all rules, given their calls
      same_unroll     every rule, whatever calls beyond the budget come to
      same_run        every rule, with budgets that suffice
-/
import TypeAhead.Proofs.Fragment.Quiet
import TypeAhead.Proofs.Fragment.InStep
import TypeAhead.Proofs.Fragment.Soundness
import TypeAhead.Proofs.Walk.Progress
import TypeAhead.Proofs.Walk.Twins

namespace TypeAhead.Fragment.Rule

open Walker Twins

/-! ## §1. What a rule needs. -/

/-- How many rules may be under way from a rule on, down to the next nested one, if no chain of
names goes on with a member. -/
def height : Rule → Nat
  | conditional | unary | text => 1
  | argument | parenthesized | creation | product => 2
  | arguments | sum => 3
  | argumentList | elementAccess | shift => 4
  | member | comparison => 5
  | nameChain | primary | bitwise => 6
  | operand => 7
  | containment => 8
  | conjunction => 9
  | disjunction => 10
  | projection => 11
  | coalescing => 12

/-- The calls that may be under way from a rule on that is called at a depth, with so many tokens
ahead: a member and the chain of names in it take one token at least. -/
def calls (r : Rule) (depth n : Nat) : Nat := 32 * (Limits.nesting - depth) + r.height + 2 * n

/-- Within the same nested rule, a lower rule needs fewer calls. -/
theorem calls_lt {sub rule : Rule} {depth m n k : Nat} (hlt : sub.height < rule.height) (hm : m ≤ n)
    (h : rule.calls depth n ≤ k + 1) : sub.calls depth m ≤ k := by
  unfold calls at h ⊢
  omega

/-- With fewer tokens ahead, no more calls are needed. -/
theorem calls_mono {r : Rule} {depth m n k : Nat} (hm : m ≤ n) (h : r.calls depth n ≤ k) :
    r.calls depth m ≤ k := by
  unfold calls at h ⊢
  omega

/-- One level deeper, every rule needs fewer calls. -/
theorem calls_deeper {rule : Rule} {depth n k : Nat} (hdepth : depth < Limits.nesting) (sub : Rule)
    (h : rule.calls depth n ≤ k + 1) : sub.calls (depth + 1) n ≤ k := by
  have hsub : sub.height ≤ 12 := by cases sub <;> decide
  unfold calls at h ⊢
  omega

/-- A token pays for a call of a rule that is higher by one. -/
theorem calls_past {sub rule : Rule} {depth m n k : Nat} (hlt : sub.height ≤ rule.height + 1)
    (hm : m < n) (h : rule.calls depth n ≤ k + 1) : sub.calls depth m ≤ k := by
  unfold calls at h ⊢
  omega

/-- The budget of a walk is enough for all of its text. -/
theorem calls_le_budget {n size : Nat} (h : n ≤ size + 1) : conditional.calls 0 n ≤ budget size := by
  have hheight : conditional.height = 1 := rfl
  unfold calls budget
  omega

/-! ## §2. Calls of twin walks. -/

section

variable {p : Twins} {parsing : Parsing} {call call' : Rule → Locator Unit} {budget depth n : Nat}
  {rule sub : Rule} {test : Cursor → Bool} {operator operator' : Token} {w v : Walk (List Nat)}

/-- The open operands correspond, from the innermost to the outermost. -/
abbrev Stacks (p : Twins) : List Nat → List Nat → Prop := List.Forall₂ p.place

/-- Calls with no more than `budget` calls under way have the same outcome.  A chain of names may be
over where it starts; any other rule goes past the token at which it is called. -/
structure Twin (p : Twins) (budget : Nat) (call call' : Rule → Locator Unit) : Prop where
  read : ∀ {r depth n w v}, r ≠ nameChain → calls r depth n ≤ budget →
    p.Paired (Stacks p) depth n w v →
    p.Same (Stacks p) depth (Read w.cursor n) ((call r).run w) ((call' r).run v)
  chain : ∀ {depth n w v}, calls nameChain depth n ≤ budget → p.Paired (Stacks p) depth n w v →
    p.Same (Stacks p) depth (Within n) ((call nameChain).run w) ((call' nameChain).run v)
  never : ∀ {r}, needsToken r → Never (call r)

/-- A test that the end of a text fails tells that the text goes on. -/
theorem isFinish_of_test {c : Cursor} (hfinish : ∀ c, c.current.isFinish = true → test c = false)
    (h : test c = true) : c.current.isFinish = false := by
  cases hc : c.current.isFinish with
  | false => rfl
  | true =>
    rw [hfinish c hc] at h
    cases h

/-- A token of a kind other than that of the end is not the end. -/
theorem isFinish_of_isKind {kind : TokenKind} {c : Cursor} (hkind : kind ≠ .finish)
    (h : c.isKind kind = true) : c.current.isFinish = false :=
  isFinish_of_test (fun _ => isKind_finish hkind) h

/-- A rule that needs a token has read one when it succeeds. -/
theorem Twin.past (H : Twin p budget call call') (sub : Rule) (hr : needsToken sub)
    (hcalls : calls sub depth n ≤ budget) (h : p.Paired (Stacks p) depth n w v) :
    p.Same (Stacks p) depth (Past n) ((call sub).run w) ((call' sub).run v) := by
  have hread := H.read hr.1 hcalls h
  generalize hrun : (call sub).run w = o at hread
  generalize (call' sub).run v = q at hread
  cases hread with
  | ok h' hm =>
    refine .ok h' ⟨hm.1, hm.2.2 ?_⟩
    cases hw : w.cursor.current.isFinish with
    | false => rfl
    | true => exact absurd hrun (H.never hr w hw _ _)
  | error h' hf => exact .error h' hf

/-- A call within the same nested rule. -/
theorem Twin.lower (H : Twin p budget call call') (sub : Rule) (hr : needsToken sub)
    (hlt : sub.height < rule.height) {m : Nat} (hm : m ≤ n) (hcalls : calls rule depth n ≤ budget + 1)
    (h : p.Paired (Stacks p) depth m w v) :
    p.Same (Stacks p) depth (Past m) ((call sub).run w) ((call' sub).run v) :=
  H.past sub hr (calls_lt hlt hm hcalls) h

/-- A call after a token that is read. -/
theorem Twin.advance (H : Twin p budget call call') (sub : Rule) (hr : needsToken sub)
    (hlt : sub.height ≤ rule.height + 1) {m : Nat} (hm : m ≤ n)
    (hcalls : calls rule depth n ≤ budget + 1) (h : p.Paired (Stacks p) depth m w v)
    (hw : w.cursor.current.isFinish = false) :
    p.Same (Stacks p) depth (Past m) ((do advance; call sub : Locator Unit).run w)
      ((do advance; call' sub : Locator Unit).run v) := by
  refine same_bind (same_advance_past h hw) fun _ _ k _ _ _ hk h => ?_
  refine (H.past sub hr (calls_past hlt (Nat.lt_of_lt_of_le hk.2 hm) hcalls) h).imp fun _ _ j hj => ?_
  exact ⟨rfl, Nat.lt_trans hj.2 hk.2⟩

/-! ## §3. Operators. -/

/-- Operands with operators between them. -/
theorem same_chain (H : Twin p budget call call') (hr : needsToken sub)
    (hlt : sub.height < rule.height) (htest : ReadsToken test)
    (hfinish : ∀ c, c.current.isFinish = true → test c = false)
    (hcalls : calls rule depth n ≤ budget + 1) (h : p.Paired (Stacks p) depth n w v) :
    p.Same (Stacks p) depth (Past n) ((chain call sub test).run w) ((chain call' sub test).run v) := by
  refine same_pastThen (H.lower sub hr hlt (Nat.le_refl n) hcalls h) fun _ m w v hm h => ?_
  refine same_repeatWhile htest (fun {k w v} hk h ht => ?_) h
  exact H.advance sub hr (by omega) (Nat.le_trans hk (Nat.le_of_lt hm)) hcalls h
    (isFinish_of_test hfinish ht)

/-- Operands with operators between them.  Each operand takes a token, so that the calls for the next one are
fewer. -/
theorem same_operators (H : Twin p budget call call') (hoperators : rule.operators? = some (sub, test))
    (hcalls : calls rule depth n ≤ budget + 1) (h : p.Paired (Stacks p) depth n w v) :
    p.Same (Stacks p) depth (Past n) ((body parsing call rule).run w)
      ((body parsing call' rule).run v) := by
  obtain ⟨htest, hfinish⟩ := operators?_test hoperators
  have hlt : sub.height < rule.height := by cases rule <;> cases hoperators <;> decide
  rw [body_operators hoperators, body_operators hoperators]
  exact same_chain H (operators?_sub hoperators).2.2 hlt htest hfinish hcalls h

/-- The two branches after a condition. -/
theorem same_choice (H : Twin p budget call call') (hcalls : calls conditional depth n ≤ budget)
    (h : p.Paired (Stacks p) depth n w v) :
    p.Same (Stacks p) depth (Within n) ((choice call).run w) ((choice call').run v) := by
  have hconditional : ∀ {m w v}, m ≤ n → p.Paired (Stacks p) depth m w v →
      p.Same (Stacks p) depth (Within m) ((call conditional).run w) ((call' conditional).run v) :=
    fun hm h => (H.past conditional (by decide) (calls_mono hm hcalls) h).past
  refine same_onlyIf h (readsToken_isKind _) fun _ => ?_
  refine same_then (same_advance_within h) fun _ m _ _ hm h => ?_
  refine same_then (hconditional hm h) fun _ k _ _ hk h => ?_
  refine same_then (same_expect h (by decide)).past fun _ j _ _ hj h => ?_
  have hj : j ≤ n := Nat.le_trans hj (Nat.le_trans hk hm)
  exact (hconditional hj h).within hj

/-- The second operand of `np`. -/
theorem same_fallback (H : Twin p budget call call') (hcalls : calls coalescing depth n ≤ budget + 1)
    {m : Nat} (hm : m ≤ n) (h : p.Paired (Stacks p) depth m w v) :
    p.Same (Stacks p) depth (Within m) ((fallback call).run w) ((fallback call').run v) := by
  refine same_onlyIf h (readsToken_isKind _) fun hk => ?_
  exact (H.advance conditional (by decide) (by decide) hm hcalls h (isFinish_of_isKind (by decide) hk)).past

/-- The arrow of a lambda, and its body. -/
theorem same_arrow (H : Twin p budget call call') (hcalls : calls projection depth n ≤ budget + 1)
    {m : Nat} (hm : m ≤ n) (h : p.Paired (Stacks p) depth m w v) :
    p.Same (Stacks p) depth (Within m) ((arrow call).run w) ((arrow call').run v) := by
  refine same_onlyIf h (readsToken_isKind _) fun hk => ?_
  refine same_then (same_advance_within h) fun _ k _ _ hk h => ?_
  refine same_then (n := k) (same_onlyIf h (readsToken_isAny _) fun _ => ?_) fun _ j _ _ hj h => ?_
  · exact (H.lower conditional (by decide) (by decide) (Nat.le_trans hk hm) hcalls h).past
  · exact (same_demand h (readsToken_isKind _)).imp fun _ _ i hi => ⟨rfl, by omega⟩

/-! ## §4. Containments. -/

/-- The operator `in` may be two tokens, of which the second one is looked at too. -/
theorem same_containmentOperator (hkind : operator'.kind = operator.kind)
    (htext : operator'.text = operator.text) (hplace : p.place operator.start operator'.start)
    (h : p.Paired (Stacks p) depth n w v) (hw : w.cursor.current.isFinish = false) :
    p.Same (Stacks p) depth (Past n) ((containmentOperator operator).run w)
      ((containmentOperator operator').run v) := by
  unfold containmentOperator
  rw [hkind, htext]
  cases operator.text == "not" || operator.kind == .exclamation with
  | false => exact same_advance_past h hw
  | true =>
    refine same_pastThen ?_ fun _ m _ _ hm h => same_advance_within h
    refine same_ifLook h (fun _ _ _ _ => rfl) (fun _ => ?_) nofun
    refine same_pastThen (same_advance_past h hw) fun _ m _ _ hm h => ?_
    exact same_ifLook h (readsToken_isWord _) (fun _ => .ok h ⟨rfl, Nat.le_refl m⟩)
      fun _ => same_failAt h hplace

/-- An element of a list, with the token before it. -/
theorem same_listElement (H : Twin p budget call call')
    (hplace : p.place operator.start operator'.start) {m : Nat} (hm : m ≤ n)
    (hcalls : calls containment depth n ≤ budget + 1) (h : p.Paired (Stacks p) depth m w v) :
    p.Same (Stacks p) depth (Past m) ((listElement call operator).run w)
      ((listElement call' operator').run v) := by
  refine same_then (same_advance_within h) fun _ k w' v' hk h => ?_
  refine same_bind (H.lower unary (by decide) (by decide) (Nat.le_trans hk hm) hcalls h)
    fun _ _ j _ _ _ hj h => ?_
  exact same_ifLook h (readsToken_isKind _) (fun _ => same_failAt h hplace)
    fun _ => .ok h ⟨rfl, Nat.lt_of_lt_of_le hj.2 hk⟩

/-- What `in` is followed by. -/
theorem same_container (H : Twin p budget call call') {m : Nat} (hm : m ≤ n)
    (hcalls : calls containment depth n ≤ budget + 1) (h : p.Paired (Stacks p) depth m w v)
    (hw : startsContainment w.cursor = true) :
    p.Same (Stacks p) depth (Past m) ((container call).run w) ((container call').run v) := by
  have hplace := p.start_eq h.alike
  refine same_look (f := Cursor.current) ?_
  refine same_pastThen (same_containmentOperator (p.kind_eq h.alike) (p.text_eq h.alike) hplace h
    (isFinish_of_startsContainment hw)) fun _ k w v hk h => ?_
  have hk : k ≤ n := Nat.le_trans (Nat.le_of_lt hk) hm
  refine same_look (f := fun c => c.current.kind) ?_
  rw [p.kind_eq h.alike]
  split
  · refine same_then (same_repeatWhile (fun c d hkind _ => ?_) (fun hj h _ =>
      same_listElement H hplace (Nat.le_trans hj hk) hcalls h) h) fun _ j _ _ hj h => ?_
    · simp only [Cursor.isKind, hkind]
    · exact (same_advance_within h).within hj
  · exact (H.lower operand (by decide) (by decide) hk hcalls h).past
  · exact same_failAt h hplace

/-! ## §5. Operands. -/

/-- Stacks that correspond do so without their innermost operands. -/
theorem forall₂_tail {starts starts' : List Nat} (h : Stacks p starts starts') :
    Stacks p starts.tail starts'.tail := by
  cases h with
  | nil => exact .nil
  | cons _ h => exact h

/-- What is attached to an operand opens past the mark before it. -/
theorem same_attached (H : Twin p budget call call') {m : Nat} (hm : m ≤ n)
    (hcalls : calls operand depth n ≤ budget + 1) (h : p.Paired (Stacks p) depth m w v) :
    p.Same (Stacks p) depth (Within m) ((attached call).run w) ((attached call').run v) := by
  refine same_repeatWhile (readsToken_isAny _) (fun {k w v} hk h ht => ?_) h
  have hw : w.cursor.current.isFinish = false :=
    isFinish_of_test (fun _ => isAny_finish (by decide)) ht
  have hk : k ≤ n := Nat.le_trans hk hm
  refine same_look (f := fun c => c.current.kind) ?_
  rw [p.kind_eq h.alike]
  split
  · exact H.advance member (by decide) (by decide) hk hcalls h hw
  · exact same_refuse h
  · exact H.lower elementAccess (by decide) (by decide) hk hcalls h

/-- A minus becomes part of the number after it in both texts. -/
theorem same_operated (H : Twin p budget call call') (hkind : operator'.kind = operator.kind)
    (hplace : p.place operator.start operator'.start)
    (hcalls : ∀ r, calls r depth n ≤ budget) (h : p.Paired (Stacks p) depth n w v) :
    p.Same (Stacks p) depth (Within n) ((operated call operator).run w)
      ((operated call' operator').run v) := by
  refine same_look (f := Cursor.current) ?_
  rw [hkind, p.kind_eq h.alike]
  split
  · refine same_bind (Q := Within n) (same_edit h ?_ ⟨rfl, Nat.le_refl n⟩)
      fun _ _ m _ _ _ hm h => ?_
    · exact p.replace h.alike rfl (p.kind_eq h.alike) (congrArg ("-" ++ ·) (p.text_eq h.alike)) hplace
    · exact (H.past operand (by decide) (calls_mono hm.2 (hcalls operand)) h).past.within hm.2
  · exact (H.past unary (by decide) (hcalls unary) h).past

/-- A prefix operator calls for its operand past a token. -/
theorem same_unary (H : Twin p budget call call') (hcalls : calls unary depth n ≤ budget + 1)
    (h : p.Paired (Stacks p) depth n w v) :
    p.Same (Stacks p) depth (Past n) ((body parsing call unary).run w)
      ((body parsing call' unary).run v) := by
  refine same_nested h fun hdepth h => ?_
  refine same_ifLook h readsToken_isSign (fun hsign => ?_) fun _ => ?_
  · have hplace := p.start_eq h.alike
    have hkind := p.kind_eq h.alike
    refine same_look (f := Cursor.current) ?_
    refine same_pastThen (same_advance_past h (isFinish_of_test (fun _ => isSign_finish) hsign))
      fun _ m _ _ hm h => ?_
    exact same_operated H hkind hplace
      (fun r => calls_mono (Nat.le_of_lt hm) (calls_deeper hdepth r hcalls)) h
  · exact H.past operand (by decide) (calls_deeper hdepth operand hcalls) h

/-- Opening and closing an operand changes both stacks alike. -/
theorem same_operand (H : Twin p budget call call') (hcalls : calls operand depth n ≤ budget + 1)
    (h : p.Paired (Stacks p) depth n w v) :
    p.Same (Stacks p) depth (Past n) ((body parsing call operand).run w)
      ((body parsing call' operand).run v) := by
  refine same_bind (Q := fun _ _ m => m = n)
    (same_hold h (.cons (p.start_eq h.alike) h.held) rfl) ?_
  rintro _ _ m _ _ - rfl h
  refine same_pastThen (H.lower primary (by decide) (by decide) (Nat.le_refl m) hcalls h)
    fun _ k _ _ hk h => ?_
  refine same_then (same_attached H (Nat.le_of_lt hk) hcalls h) fun _ j w v hj h => ?_
  refine same_hold h ?_ ⟨rfl, hj⟩
  rw [isFinish_eq h.alike]
  split
  · exact h.held
  · exact forall₂_tail h.held

/-- Which kind of operand it is is told by the current token. -/
theorem same_primary (H : Twin p budget call call') (hcalls : calls primary depth n ≤ budget + 1)
    (h : p.Paired (Stacks p) depth n w v) :
    p.Same (Stacks p) depth (Past n) ((body parsing call primary).run w)
      ((body parsing call' primary).run v) := by
  -- What is called first stands lower in the grammar, so fewer calls are left to it.
  have hlower : ∀ sub : Rule, needsToken sub → sub.height < primary.height →
      p.Same (Stacks p) depth (Past n) ((call sub).run w) ((call' sub).run v) :=
    fun sub hr hlt => H.lower sub hr hlt (Nat.le_refl n) hcalls h
  have hnumber : w.cursor.current.kind.isNumber = true →
      p.Same (Stacks p) depth (Past n) ((advance : Locator Unit).run w)
        ((advance : Locator Unit).run v) := by
    intro hnumber
    refine same_advance_past h ?_
    cases hk : w.cursor.current.kind <;> simp_all [Token.isFinish, TokenKind.isNumber]
  -- The kind of the token decides, and it is the same in both texts.
  refine same_look (f := fun c => c.current.kind) ?_
  rw [p.kind_eq h.alike]
  split
  · exact same_ifLook h (readsToken_isWord _) (fun _ => hlower creation (by decide) (by decide))
      fun _ => hlower member (by decide) (by decide)
  · rename_i hk
    have hw : w.cursor.current.isFinish = false := by simp [Token.isFinish, hk]
    exact (H.read (r := text) nofun (calls_lt (by decide) (Nat.le_refl n) hcalls) h).imp
      fun _ _ m hm => ⟨rfl, hm.2.2 hw⟩
  · rename_i hk
    exact hnumber (by rw [hk]; rfl)
  · rename_i hk
    exact hnumber (by rw [hk]; rfl)
  · exact hlower parenthesized (by decide) (by decide)
  · exact same_fail h rfl

/-! ## §6. Names and arguments. -/

/-- A chain of names is called where a token was read since the member was: that pays for the calls
of both. -/
theorem same_afterName (H : Twin p budget call call') {m : Nat} (hm : m < n)
    (hcalls : calls member depth n ≤ budget + 1) (h : p.Paired (Stacks p) depth m w v) :
    p.Same (Stacks p) depth (Within m) ((afterName call).run w) ((afterName call').run v) := by
  refine same_ifLook h (readsToken_isKind _) (fun hk => ?_) fun _ => ?_
  · exact (H.advance conditional (by decide) (by decide) (Nat.le_of_lt hm) hcalls h
      (isFinish_of_isKind (by decide) hk)).past
  · refine same_then (same_onlyIf h (readsToken_isAny _) fun _ => ?_) fun _ k _ _ hk h => ?_
    · exact H.chain (calls_past (by decide) hm hcalls) h
    · refine (same_onlyIf h (readsToken_isKind _) fun _ => ?_).within hk
      have hk : k ≤ n := Nat.le_trans hk (Nat.le_of_lt hm)
      exact (H.lower argumentList (by decide) (by decide) hk hcalls h).past

/-- A name, and what may follow one. -/
theorem same_member (H : Twin p budget call call') (hcalls : calls member depth n ≤ budget + 1)
    (h : p.Paired (Stacks p) depth n w v) :
    p.Same (Stacks p) depth (Past n) ((body parsing call member).run w)
      ((body parsing call' member).run v) := by
  refine same_demandThen h (readsToken_isKind _) fun hk => ?_
  refine same_editThen (m := n) h ?_ fun w' v' hw' h => ?_
  · exact p.replace h.alike rfl (p.kind_eq h.alike) (congrArg plainName (p.text_eq h.alike))
      (p.start_eq h.alike)
  · refine same_pastThen (same_advance_past h ?_) fun _ m _ _ hm h => same_afterName H hm hcalls h
    rw [hw']
    exact isFinish_of_isKind (by decide) hk

/-- Names between dots, in a loop. -/
theorem same_nameChain (H : Twin p budget call call') (hcalls : calls nameChain depth n ≤ budget + 1)
    (h : p.Paired (Stacks p) depth n w v) :
    p.Same (Stacks p) depth (Within n) ((body parsing call nameChain).run w)
      ((body parsing call' nameChain).run v) := by
  refine same_then (same_repeatWhile (readsToken_isAny _) (fun {m w v} _ h ht => ?_) h)
    fun _ m _ _ hm h => ?_
  · have hw : w.cursor.current.isFinish = false :=
      isFinish_of_test (fun _ => isAny_finish (by decide)) ht
    exact same_pastThen (same_advance_past h hw) fun _ k _ _ _ h =>
      same_onlyIf h (readsToken_isKind _) fun _ => same_advance_within h
  · refine (same_onlyIf h (readsToken_isKind _) fun _ => ?_).within hm
    exact (H.lower member (by decide) (by decide) hm hcalls h).past

/-- An argument that is discarded, or an expression. -/
theorem same_argument (H : Twin p budget call call') (hcalls : calls argument depth n ≤ budget + 1)
    (h : p.Paired (Stacks p) depth n w v) :
    p.Same (Stacks p) depth (Read w.cursor n) ((body parsing call argument).run w)
      ((body parsing call' argument).run v) := by
  refine same_bind (same_discardedOut h) ?_
  rintro found _ m w' v' - ⟨rfl, hm, hfound⟩ h
  cases found with
  | true => exact .ok h ⟨rfl, hm, fun _ => hfound rfl⟩
  | false =>
    refine (H.lower conditional (by decide) (by decide) hm hcalls h).imp fun _ _ k hk => ?_
    have hk : k < n := Nat.lt_of_lt_of_le hk.2 hm
    exact ⟨rfl, Nat.le_of_lt hk, fun _ => hk⟩

/-- Arguments between commas, in a loop. -/
theorem same_arguments (H : Twin p budget call call') (hcalls : calls arguments depth n ≤ budget + 1)
    (h : p.Paired (Stacks p) depth n w v) :
    p.Same (Stacks p) depth (Past n) ((body parsing call arguments).run w)
      ((body parsing call' arguments).run v) :=
  same_chain H (by decide) (by decide) (readsToken_isKind _)
    (fun _ hc => isKind_finish (by decide) hc) hcalls h

/-- Something between two brackets. -/
theorem same_bracketed {opening closing : TokenKind} {cause cause' : Cause} {x y : Locator Unit}
    (hopening : opening ≠ .finish) (hclosing : closing ≠ .finish)
    (hinner : ∀ {m w v}, m < n → p.Paired (Stacks p) depth m w v →
      p.Same (Stacks p) depth (Within m) (x.run w) (y.run v))
    (h : p.Paired (Stacks p) depth n w v) :
    p.Same (Stacks p) depth (Past n)
      ((do expect opening cause; x; expect closing cause' : Locator Unit).run w)
      ((do expect opening cause; y; expect closing cause' : Locator Unit).run v) := by
  refine same_pastThen (same_expect h hopening) fun _ m _ _ hm h => ?_
  refine same_then (hinner hm h) fun _ k _ _ hk h => ?_
  exact (same_expect h hclosing).past.within hk

/-! ## §7. Creations. -/

/-- The name of the type after `new`. -/
theorem same_createdType (h : p.Paired (Stacks p) depth n w v) :
    p.Same (Stacks p) depth (Within n) (createdType.run w) (createdType.run v) := by
  refine same_then (same_advance_within h) fun _ m _ _ hm h => ?_
  refine same_then (same_repeatWhile (readsToken_isAny _) (fun {k w v} _ h ht => ?_) h)
    fun _ k _ _ hk h => ?_
  · have hw : w.cursor.current.isFinish = false :=
      isFinish_of_test (fun _ => isAny_finish (by decide)) ht
    exact same_pastThen (same_advance_past h hw) fun _ j _ _ _ h => (same_expect h (by decide)).past
  · exact (same_demand h (readsToken_isAny _)).imp fun _ _ j hj => ⟨rfl, by omega⟩

/-- The brackets of an array. -/
theorem same_arrayMark (h : p.Paired (Stacks p) depth n w v) :
    p.Same (Stacks p) depth (Within n) (arrayMark.run w) (arrayMark.run v) := by
  refine same_ifLook h (readsToken_isKind _) (fun _ => ?_) fun _ => .ok h ⟨rfl, Nat.le_refl n⟩
  refine same_then (same_advance_within h) fun _ m _ _ hm h => ?_
  refine same_then (same_expect h (by decide)).past fun _ k _ _ hk h => ?_
  exact same_demandThen h (readsToken_isKind _) fun _ => .ok h ⟨rfl, Nat.le_trans hk hm⟩

/-- The members of what is made, in a loop. -/
theorem same_createdMembers (H : Twin p budget call call') (isArray : Bool)
    (hcalls : calls creation depth n ≤ budget + 1) {m : Nat} (hm : m ≤ n)
    (h : p.Paired (Stacks p) depth m w v) :
    p.Same (Stacks p) depth (Within m) ((createdMembers parsing call isArray).run w)
      ((createdMembers parsing call' isArray).run v) := by
  refine same_loop (fun {_ k w v} hk h => ?_) () h
  have has : ReadsToken fun c => !isArray && c.isWord "as" := by
    intro c d hkind htext
    simp only [Cursor.isWord, hkind, htext]
  -- A bracket ends the members in both texts.
  refine same_ifLook h (readsToken_isAny _) (fun _ => .ok h ⟨rfl, Nat.le_refl k, by simp⟩) fun _ => ?_
  refine same_then (n := k) ?_ fun _ j _ _ hj h => ?_
  -- The member is called for without a token gone past, so it stands lower in the grammar.
  · refine same_then (H.lower conditional (by decide) (by decide) (Nat.le_trans hk hm) hcalls h).past
      fun _ j _ _ hj h => ?_
    refine (same_onlyIf h has fun _ => ?_).within hj
    refine same_then (same_advance_within h) fun _ i _ _ hi h => ?_
    refine same_then (same_aliasName parsing.dottedAliases h) fun _ l _ _ hl h => ?_
    exact .ok h ⟨rfl, Nat.le_trans hl hi⟩
  -- Another round is asked for behind a comma only, with fewer tokens ahead.
  · refine same_ifLook h (readsToken_isKind _) (fun hcomma => ?_) fun _ => .ok h ⟨rfl, hj, by simp⟩
    refine same_bind (same_advance_past h (isFinish_of_isKind (by decide) hcomma))
      fun _ _ i _ _ _ hi h => ?_
    have hi : i < k := Nat.lt_of_lt_of_le hi.2 hj
    exact .ok h ⟨rfl, Nat.le_of_lt hi, fun _ => hi⟩

/-- A creation goes past its first word. -/
theorem same_creation (H : Twin p budget call call') (hcalls : calls creation depth n ≤ budget + 1)
    (h : p.Paired (Stacks p) depth n w v) :
    p.Same (Stacks p) depth (Read w.cursor n) ((body parsing call creation).run w)
      ((body parsing call' creation).run v) := by
  refine same_readThen (same_advance h) fun _ m w v hm h => ?_
  refine same_demandThen h (readsToken_isAny _) fun _ => ?_
  refine same_then (same_onlyIf h (readsToken_isKind _) fun _ => same_createdType h)
    fun _ k _ _ hk h => ?_
  refine same_then (same_arrayMark h) fun isArray j _ _ hj h => ?_
  refine same_then (same_advance_within h) fun _ i _ _ hi h => ?_
  have hi : i ≤ m := Nat.le_trans hi (Nat.le_trans hj hk)
  refine same_then (same_createdMembers H isArray hcalls (Nat.le_trans hi hm) h)
    fun _ l _ _ hl h => ?_
  refine same_demandThen h (readsToken_isAny _) fun _ => ?_
  exact (same_advance_within h).within (Nat.le_trans hl hi)

/-! ## §8. Literals. -/

/-- Reading ahead moves neither walk. -/
theorem same_lookAhead {f g : Unit → Locator Unit} {Q : Unit → Unit → Nat → Prop}
    (h : p.Paired (Stacks p) depth n w v)
    (hf : p.Same (Stacks p) depth Q ((f ()).run w) ((g ()).run v)) :
    p.Same (Stacks p) depth Q ((lookAhead >>= f).run w) ((lookAhead >>= g).run v) := by
  show p.Same _ depth Q ((((ofExcept w.cursor.next).run w).andThen fun ahead =>
      if ahead.isKind .question then (do let _ ← ofExcept ahead.next) else pure ()).andThen f)
    ((((ofExcept v.cursor.next).run v).andThen fun ahead =>
      if ahead.isKind .question then (do let _ ← ofExcept ahead.next) else pure ()).andThen g)
  rw [Walk.Outcome.andThen_assoc, Walk.Outcome.andThen_assoc]
  refine same_ofExceptThen h (agree_next h.alike) ?_
  rintro c d ⟨m, hcd, -⟩
  rw [show d.isKind .question = c.isKind .question from test_eq (readsToken_isKind _) hcd]
  cases c.isKind .question with
  | false => exact hf
  | true =>
    show p.Same _ depth Q ((((ofExcept c.next).run w).andThen fun _ => pure ()).andThen f)
      ((((ofExcept d.next).run v).andThen fun _ => pure ()).andThen g)
    rw [Walk.Outcome.andThen_assoc, Walk.Outcome.andThen_assoc]
    exact same_ofExceptThen h (agree_next hcd) fun _ _ _ => hf

/-- What a literal stands for does not depend on where it stands. -/
theorem agree_value (dialect : Dialect) (literal : String) {position position' : Nat}
    (hplace : p.place position position') :
    Agree p.place (· = ·) (Literal.value dialect position literal)
      (Literal.value dialect position' literal) := by
  rcases value_congr dialect literal position position' with
    ⟨value, hw, hv⟩ | ⟨cause, hw, hv⟩ <;> rw [hw, hv]
  · exact .ok rfl
  · exact .error rfl hplace

/-- The value of a literal is read from its text; a fault in it is at places that correspond. -/
theorem same_literalValue {f g : String → Locator Unit} {Q : Unit → Unit → Nat → Prop}
    (literal : String) (h : p.Paired (Stacks p) depth n w v)
    (hf : ∀ value, p.Same (Stacks p) depth Q ((f value).run w) ((g value).run v)) :
    p.Same (Stacks p) depth Q ((literalValue parsing literal >>= f).run w)
      ((literalValue parsing literal >>= g).run v) := by
  show p.Same _ depth Q
    ((ofExcept (Literal.value parsing.dialect w.cursor.current.start literal) >>= f).run w)
    ((ofExcept (Literal.value parsing.dialect v.cursor.current.start literal) >>= g).run v)
  refine same_ofExceptThen h (agree_value _ literal (p.start_eq h.alike)) ?_
  rintro value _ rfl
  exact hf value

/-- Literals in a row are joined to the same text. -/
theorem same_adjacentLiterals (first : String) (h : p.Paired (Stacks p) depth n w v) :
    p.Same (Stacks p) depth (Read w.cursor n) ((adjacentLiterals first).run w)
      ((adjacentLiterals first).run v) := by
  refine same_readThen (same_advance h) fun _ m w v _ h => ?_
  refine same_loop (fun {joined k w v} _ h => ?_) first h
  refine same_look (f := Cursor.current) ?_
  rw [p.kind_eq h.alike, p.text_eq h.alike]
  split
  · rename_i hk
    have hw : w.cursor.current.isFinish = false := by simp [Token.isFinish, hk]
    refine same_bind (same_advance_past h hw) fun _ _ j _ _ _ hj h => ?_
    exact .ok h ⟨rfl, Nat.le_of_lt hj.2, fun _ => hj.2⟩
  · exact .ok h ⟨rfl, Nat.le_refl k, nofun⟩

/-- Literals in a row, and what follows them. -/
theorem same_text (h : p.Paired (Stacks p) depth n w v) :
    p.Same (Stacks p) depth (Read w.cursor n) ((body parsing call text).run w)
      ((body parsing call' text).run v) := by
  refine same_lookAhead h ?_
  refine same_look (f := Cursor.current) ?_
  rw [p.text_eq h.alike]
  refine same_literalValue _ h fun value => ?_
  split
  · split
    · exact same_fail h rfl
    · exact same_advance h
  · refine same_readThen (same_adjacentLiterals _ h) fun joined m _ _ _ h => ?_
    exact same_literalValue joined h fun _ => .ok h ⟨rfl, Nat.le_refl m⟩

/-! ## §9. Every rule. -/

/-- **The bodies of all rules have the same outcome if their calls do.** -/
theorem same_body (H : Twin p budget call call') {r : Rule} (hr : r ≠ nameChain)
    (hcalls : calls r depth n ≤ budget + 1) (h : p.Paired (Stacks p) depth n w v) :
    p.Same (Stacks p) depth (Read w.cursor n) ((body parsing call r).run w)
      ((body parsing call' r).run v) := by
  -- A call at the same token goes down in the grammar; every other one has a token behind it, or is
  -- one level deeper.
  cases r with
  | conditional =>
    refine Same.read (same_nested h fun hdepth h => ?_)
    refine same_pastThen (H.past coalescing (by decide) (calls_deeper hdepth _ hcalls) h)
      fun _ m _ _ hm h => ?_
    exact same_choice H (calls_mono (Nat.le_of_lt hm) (calls_deeper hdepth _ hcalls)) h
  | coalescing =>
    refine Same.read (same_pastThen (H.lower projection (by decide) (by decide) (Nat.le_refl n) hcalls h)
      fun _ m _ _ hm h => ?_)
    exact same_fallback H hcalls (Nat.le_of_lt hm) h
  | projection =>
    refine Same.read (same_pastThen (H.lower disjunction (by decide) (by decide) (Nat.le_refl n) hcalls h)
      fun _ m _ _ hm h => ?_)
    exact same_arrow H hcalls (Nat.le_of_lt hm) h
  | disjunction | conjunction | bitwise | comparison | shift | sum | product =>
    exact (same_operators H rfl hcalls h).read
  | containment =>
    refine Same.read (same_pastThen (H.lower bitwise (by decide) (by decide) (Nat.le_refl n) hcalls h)
      fun _ m _ _ hm h => ?_)
    refine same_repeatWhile readsToken_startsContainment (fun hk h ht => ?_) h
    exact same_container H (Nat.le_trans hk (Nat.le_of_lt hm)) hcalls h ht
  | unary => exact (same_unary H hcalls h).read
  | operand => exact (same_operand H hcalls h).read
  | primary => exact (same_primary H hcalls h).read
  | member => exact (same_member H hcalls h).read
  | nameChain => exact absurd rfl hr
  | argumentList =>
    refine (same_bracketed (by decide) (by decide) (fun hm h => ?_) h).read
    refine same_onlyIf h (fun c d hkind _ => ?_) fun _ => ?_
    · simp only [Cursor.isKind, hkind]
    · exact (H.lower arguments (by decide) (by decide) (Nat.le_of_lt hm) hcalls h).past
  | arguments => exact (same_arguments H hcalls h).read
  | argument => exact same_argument H hcalls h
  | elementAccess =>
    refine (same_bracketed (by decide) (by decide) (fun hm h => ?_) h).read
    exact (H.lower arguments (by decide) (by decide) (Nat.le_of_lt hm) hcalls h).past
  | creation => exact same_creation H hcalls h
  | parenthesized =>
    refine (same_bracketed (by decide) (by decide) (fun hm h => ?_) h).read
    exact (H.lower conditional (by decide) (by decide) (Nat.le_of_lt hm) hcalls h).past
  | text => exact same_text h

/-- A walk with a budget is a recursion that fails where the budget is used up. -/
theorem run_eq_unroll (parsing : Parsing) (k : Nat) :
    run parsing k = unroll (body parsing) (fun _ => fail .tooDeep) k := by
  induction k with
  | zero => rfl
  | succ k ih =>
    funext r
    rw [run, unroll, ih]

/-- **Every rule has the same outcome in twin walks**, with budgets that are enough for its calls, whatever
the calls beyond them come to. -/
theorem same_unroll (p : Twins) (parsing : Parsing) (base : Rule → Locator Unit) {budget k k' : Nat}
    (hk : budget ≤ k) (hk' : budget ≤ k') :
    Twin p budget (run parsing k) (unroll (body parsing) base k') := by
  induction budget generalizing k k' with
  -- Every call needs a budget, so that no rule is promised anything without one.
  | zero =>
    have hheight : ∀ r : Rule, 0 < r.height := by
      intro r
      cases r <;> decide
    have hnone : ∀ {r depth n}, ¬ calls r depth n ≤ 0 := by
      intro r depth n h
      have := hheight r
      unfold calls at h
      omega
    exact ⟨fun _ hcalls _ => absurd hcalls hnone, fun hcalls _ => absurd hcalls hnone,
      fun hr => never_run parsing k _ hr⟩
  | succ budget ih =>
    obtain _ | k := k
    · exact absurd hk (Nat.not_succ_le_zero budget)
    obtain _ | k' := k'
    · exact absurd hk' (Nat.not_succ_le_zero budget)
    -- The body has one call less to spend in both walks.
    have H := ih (Nat.le_of_succ_le_succ hk) (Nat.le_of_succ_le_succ hk')
    exact ⟨same_body H, same_nameChain H, fun hr => never_run parsing (k + 1) _ hr⟩

/-- The same for two walks with budgets. -/
theorem same_run (p : Twins) (parsing : Parsing) {budget k k' : Nat} (hk : budget ≤ k)
    (hk' : budget ≤ k') : Twin p budget (run parsing k) (run parsing k') :=
  run_eq_unroll parsing k' ▸ same_unroll p parsing (fun _ => fail .tooDeep) hk hk'

end

end TypeAhead.Fragment.Rule
