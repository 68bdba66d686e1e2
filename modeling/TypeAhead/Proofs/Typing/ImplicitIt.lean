/-
  TypeAhead.Proofs.Typing.ImplicitIt — A NAME BY ITSELF IS A MEMBER OF `it`.

  A name that is no keyword, no type and no namespace means a member of `it`.  The
  walk asks first whether there is one; with `it.` before the name it does not ask, but
  fails where there is none.  Either way it comes to the member, and from there on the
  same characters are ahead.  So nothing that follows tells the two apart: calls, bodies
  of sequence operators, elements, operators.

      Elsewhere                the same characters at another place
      coincides_operand        the two operands
      compile_implicit_it      the two expressions
-/
import TypeAhead.Proofs.Fragment.Recursion
import TypeAhead.Proofs.Typing.Name
import TypeAhead.Proofs.Typing.Parenthesized
import TypeAhead.Proofs.Typing.Spelled

namespace TypeAhead.Typing

open Walker Twins

/-! ## §1. The same characters at another place. -/

/-- The cursors stand on the same token with the same characters ahead; the second text is no shorter. -/
structure Elsewhere (c d : Cursor) : Prop where
  kind_eq : d.current.kind = c.current.kind
  text_eq : d.current.text = c.current.text
  rest_eq : d.rest = c.rest
  room : c.ahead ≤ c.size + 1
  size_le : c.size ≤ d.size

/-- At another offset the same characters are the same token, or a fault of the same cause. -/
theorem agree_token (previous : Option TokenKind) (a b : Nat) (cs : List Char) :
    Agree (fun _ _ => True) (fun t u => u.1.kind = t.1.kind ∧ u.1.text = t.1.text ∧ u.2 = t.2)
      (Scan.token previous a cs) (Scan.token previous b cs) := by
  have ha := Scan.token_shift a previous 0 cs
  have hb := Scan.token_shift b previous 0 cs
  rw [Nat.zero_add] at ha hb
  rw [ha, hb]
  cases Scan.token previous 0 cs with
  | ok t => exact .ok ⟨rfl, rfl, rfl⟩
  | error fault => exact .error rfl trivial

/-- What is next is the same as well. -/
theorem Elsewhere.next {c d : Cursor} (h : Elsewhere c d) (hc : c.current.isFinish = false) :
    Agree (fun _ _ => True) (fun c' d' => ∃ n, n < c.ahead ∧ n = c'.ahead ∧ Elsewhere c' d') c.next d.next := by
  have hd : d.current.isFinish = false := by rwa [Token.isFinish, h.kind_eq]
  have hahead : ∀ c', c.next = .ok c' → c'.ahead < c.ahead := fun _ hnext => Cursor.ahead_next hc hnext
  have hread := agree_token (some c.current.kind) c.offset d.offset c.rest
  rw [Cursor.next_of_not_finish hc] at hahead ⊢
  rw [Cursor.next_of_not_finish hd, h.kind_eq, h.rest_eq]
  unfold Cursor.read at hahead ⊢
  generalize Scan.token (some c.current.kind) c.offset c.rest = e at hread hahead
  generalize Scan.token (some c.current.kind) d.offset c.rest = e' at hread
  cases hread with
  | ok htoken =>
    obtain ⟨hkind, htext, hrest⟩ := htoken
    have hlt := hahead _ rfl
    exact .ok ⟨_, hlt, rfl, hkind, htext, hrest, Nat.le_trans (Nat.le_of_lt hlt) h.room, h.size_le⟩
  | error hcause hplace => exact .error hcause hplace

/-- Offsets are of no account. -/
def elsewhere : Twins where
  alike n c d := n = c.ahead ∧ Elsewhere c d
  place _ _ := True
  kind_eq h := h.2.kind_eq
  text_eq h := h.2.text_eq
  start_eq _ := trivial
  le_size := by
    rintro n c d ⟨rfl, h⟩
    have := h.room
    have := h.size_le
    omega
  next := by
    rintro n c d ⟨rfl, h⟩ hc
    exact h.next hc
  replace := by
    rintro n c d s t ⟨rfl, h⟩ hs ht htext -
    have hahead : ({ c with current := s } : Cursor).ahead = c.ahead := by
      simp [Cursor.ahead, Token.isFinish, hs]
    exact ⟨hahead.symm, ht, htext, h.rest_eq, hahead ▸ h.room, h.size_le⟩

/-! ## §2. Rules that coincide. -/

/-- The walk at a cursor, outside of all scopes. -/
abbrev unscoped (c : Cursor) (depth : Nat) : ScopedWalk := ⟨c, depth, []⟩

/-- Both walks succeed with the same result at corresponding places, or both fail. -/
inductive Coincides {α : Type} (p : Twins) (depth : Nat) : Walk.Outcome (List Scope) α →
    Walk.Outcome (List Scope) α → Prop where
  | ok {a : α} {n : Nat} {w v : ScopedWalk} (h : p.Paired Eq depth n w v) : Coincides p depth (.ok a w) (.ok a v)
  | error {f g : Failure} {w v : ScopedWalk} : Coincides p depth (.error f w) (.error g v)

section

variable {p : Twins} {α β : Type} {depth n : Nat} {x y : Typer α} {f g : α → Typer β} {w v : ScopedWalk}
  {o q : Walk.Outcome (List Scope) α}

theorem coincides_of_same (h : p.Same Eq depth (Within n) o q) : Coincides p depth o q := by
  cases h with
  | ok h hQ => exact hQ.1 ▸ .ok h
  | error h hf => exact .error

/-- What follows does alike. -/
theorem Coincides.bind (h : Coincides p depth (x.run w) (y.run v)) (hf : ∀ a, Alike p (f a) (g a)) :
    Coincides p depth ((x >>= f).run w) ((y >>= g).run v) := by
  rw [run_bind, run_bind]
  generalize x.run w = o at h
  generalize y.run v = q at h
  cases h with
  | ok h => exact coincides_of_same ((hf _).same h)
  | error => exact .error

theorem coincides_nested {c d : Cursor}
    (h : Coincides p (depth + 1) (x.run (unscoped c (depth + 1))) (y.run (unscoped d (depth + 1)))) :
    Coincides p depth ((nested x).run (unscoped c depth)) ((nested y).run (unscoped d depth)) := by
  simp only [nested, between]
  split
  · exact .error
  · have h : Coincides p (depth + 1) (x.run (unscoped c depth).deeper) (y.run (unscoped d depth).deeper) := h
    generalize x.run (unscoped c depth).deeper = o at h
    generalize y.run (unscoped d depth).deeper = q at h
    cases h with
    | ok h =>
      exact .ok ⟨h.alike, ⟨congrArg (· - 1) h.depth_eq.1, congrArg (· - 1) h.depth_eq.2⟩, h.held⟩
    | error => exact .error

end

namespace Rule

variable {s : Setting} {call : Rule → Typer Operand} {w v : ScopedWalk} {c d e f : Cursor} {depth : Nat}

/-! ## §3. Two operands. -/

/-- The word on which the walk stands is no keyword, no type and no namespace. -/
structure OnMember (s : Setting) (c : Cursor) : Prop where
  kind : c.current.kind = .identifier
  keyword : Text.lower (plainName c.current.text) ∉ keywords
  type : wordType? s (plainName c.current.text) = none
  namespace_eq : s.registry.isNamespace (plainName c.current.text) (some s.context) = false
  sign : NoSign c

/-- The cursor stands on `it` before a dot, and then on the word on which the other one stands. -/
structure AfterIt (c d e f : Cursor) : Prop where
  kind : d.current.kind = .identifier
  it : d.current.text = "it"
  next : d.next = .ok e
  dot : e.current.kind = .dot
  next' : e.next = .ok f
  elsewhere : Elsewhere c f
  longer : c.size < e.size

/-- The word is not the name of a type. -/
theorem run_typeName (h : OnMember s w.cursor) : (typeName s).run w = .ok none w := by
  unfold typeName
  rw [run_bind_of_ok (show cursor.run w = .ok w.cursor w from rfl)]
  dsimp only
  rw [h.type, h.namespace_eq]
  rfl

/-- **Where the walk finds no member when it asks for one, there is none.** -/
theorem fails_of_not_hasMember {t : TypeDef}
    (h : ∀ u, (hasMember s t (plainName w.cursor.current.text)).run w ≠ .ok true u) (a : Operand)
    (u : ScopedWalk) : (memberAccess s call t .ofInstance).run w ≠ .ok a u := by
  simp only [ne_eq, hasMember_eq_true_iff, not_and, not_or] at h
  obtain ⟨hmember, hmethods, hoperator⟩ := h w rfl
  intro hrun
  unfold memberAccess at hrun
  obtain ⟨_, w₁, hrequire, hrun⟩ := eq_ok_of_bind hrun
  rw [require, run_demand] at hrequire
  split at hrequire <;> cases hrequire
  obtain ⟨_, _, ⟨⟩, hrun⟩ := eq_ok_of_bind hrun
  obtain ⟨_, w₂, hadvance, hrun⟩ := eq_ok_of_bind hrun
  obtain ⟨_, _, ⟨⟩, hrun⟩ := eq_ok_of_bind hrun
  obtain ⟨d, hnext, rfl⟩ := eq_ok_of_advance hadvance
  dsimp only [id] at hrun
  -- A name before a bracket would have to be a method or an operator, and any other one a member.
  split at hrun
  · rename_i hopen
    rw [not_not.1 hmethods] at hrun
    have hnone : sequenceOperator? s t (plainName w.cursor.current.text) = none := by
      refine Option.not_isSome_iff_eq_none.1 fun hsome => hoperator ?_
      exact ⟨d, hnext, hopen, hsome⟩
    simp only [List.isEmpty_nil, decide_true, Bool.and_self, if_true, hnone] at hrun
    -- There is no method to choose from.
    obtain ⟨read, _, -, hrun⟩ := eq_ok_of_bind hrun
    cases hrun
  · rw [Option.not_isSome_iff_eq_none.1 hmember] at hrun
    cases hrun

/-- The name by itself: the walk asks for a member first. -/
theorem run_primary_name (h : OnMember s c) : (primary s call).run (unscoped c depth) = (do
    unless ← hasMember s s.context (plainName c.current.text) do
      fail (.unknownIdentifier (plainName c.current.text))
    memberAccess s call s.context .ofInstance).run (unscoped c depth) := by
  have hword : OpensName (unscoped c depth) := ⟨h.kind, h.keyword, rfl⟩
  unfold primary
  rw [run_bind_of_ok (show kind.run (unscoped c depth) = .ok c.current.kind (unscoped c depth) from rfl), h.kind]
  dsimp only
  rw [run_word hword, name, run_bind_of_ok (show current.run (unscoped c depth) = .ok c.current _ from rfl),
    run_bind_of_ok (run_typeName (w := unscoped c depth) h)]
  rfl

/-- With `it.` before it: the walk goes on to the member, and may go on to as many others as before. -/
theorem run_operand_it (h : AfterIt c d e f) : (body s call operand).run (unscoped d depth) =
    (memberAccess s call s.context .ofInstance >>= repeatUpTo (attachedStep s call) (e.size + 1)).run
      (unscoped f depth) := by
  -- The word `it` is read alone, as the implicit operand.
  have hprimary : (primary s call).run (unscoped d depth) = .ok (.value s.context) (unscoped e depth) := by
    unfold primary
    rw [run_bind_of_ok (show kind.run (unscoped d depth) = .ok d.current.kind (unscoped d depth) from rfl), h.kind]
    dsimp only
    unfold word
    rw [run_bind_of_ok (show scopes.run (unscoped d depth) = .ok [] (unscoped d depth) from rfl),
      run_bind_of_ok (show current.run (unscoped d depth) = .ok d.current (unscoped d depth) from rfl)]
    dsimp only
    rw [h.it, show Text.lower (plainName "it") = "it" by decide]
    exact run_bind_of_ok (run_advance (w := unscoped d depth) h.next)
  -- The dot behind it makes the first round of the loop that attaches.
  have hfirst : (attachedStep s call (.value s.context)).run (unscoped e depth) =
      (do
        let member ← memberAccess s call s.context .ofInstance
        pure (true, member) : Typer (Bool × Operand)).run (unscoped f depth) := by
    unfold attachedStep
    rw [run_bind_of_ok (show kind.run (unscoped e depth) = .ok e.current.kind (unscoped e depth) from rfl), h.dot]
    exact run_bind_of_ok (run_advance (w := unscoped e depth) h.next')
  have hloop : (attached s call (.value s.context)).run (unscoped e depth) =
      (attachedStep s call (.value s.context) >>= fun next =>
        if next.1 then repeatUpTo (attachedStep s call) (e.size + 1) next.2 else pure next.2).run
          (unscoped e depth) := rfl
  have hbody : (body s call operand).run (unscoped d depth) = (attached s call (.value s.context)).run
      (unscoped e depth) := run_bind_of_ok hprimary
  rw [hbody, hloop, run_bind, hfirst, run_bind, run_bind]
  -- After the member both continue in the same way, or fail.
  cases (memberAccess s call s.context .ofInstance).run (unscoped f depth) <;> rfl

/-- **The name by itself and the name after `it.` are the same operand**, or neither is one. -/
theorem coincides_operand (hcall : AlikeCalls elsewhere call) (hc : OnMember s c) (hd : AfterIt c d e f)
    (depth : Nat) : Coincides elsewhere depth ((body s call operand).run (unscoped c depth))
      ((body s call operand).run (unscoped d depth)) := by
  have hpaired : elsewhere.Paired Eq depth c.ahead (unscoped c depth) (unscoped f depth) :=
    ⟨⟨rfl, hd.elsewhere⟩, ⟨rfl, rfl⟩, rfl⟩
  have hmember := (alike_memberAccess (s := s) hcall s.context .ofInstance).same hpaired
  have hbody : (body s call operand).run (unscoped c depth) =
      (primary s call >>= attached s call).run (unscoped c depth) := rfl
  rw [run_operand_it hd, hbody]
  -- The word is a member of the implicit operand, or is not.
  by_cases hasIt : ∃ u, (hasMember s s.context (plainName c.current.text)).run (unscoped c depth) = .ok true u
  · obtain ⟨u, hasIt⟩ := hasIt
    cases (hasMember_eq_true_iff.1 hasIt).1
    have hprimary : (primary s call).run (unscoped c depth) =
        (memberAccess s call s.context .ofInstance).run (unscoped c depth) := by
      rw [run_primary_name hc, run_bind_of_ok hasIt]
      rfl
    rw [run_bind, hprimary, ← run_bind]
    apply coincides_of_same (n := c.ahead)
    apply same_then hmember
    intro member m w v hm h
    -- The walk with `it.` has had one round more already, and one round less is left to it.
    have hroom := hd.elsewhere.room
    have hlonger := hd.longer
    have hsize := (elsewhere.le_size h.alike).1
    have hk : m < w.cursor.size + 2 := by omega
    have hk' : m < e.size + 1 := by omega
    show elsewhere.Same Eq depth (Within c.ahead)
      ((repeatUpTo (attachedStep s call) (w.cursor.size + 2) member).run w) _
    refine (same_repeatUpTo (P := fun a b k => a = b ∧ k ≤ m) (J := fun _ => True) ?_ (fun _ _ => trivial)
      hk hk' ⟨rfl, Nat.le_refl m⟩ trivial h).within hm
    rintro a _ k w v ⟨rfl, hkm⟩ - h
    refine ((alikeRound_attachedStep hcall a).same h).imp ?_
    rintro next _ j ⟨rfl, hj, hagain⟩
    exact ⟨rfl, fun ht => ⟨hagain ht, rfl, Nat.le_trans hj hkm⟩, fun _ => ⟨rfl, Nat.le_trans hj hkm⟩⟩
  -- If it is not, then `it.` cannot be followed by it either.
  · have hfails : ∀ a u, (memberAccess s call s.context .ofInstance).run (unscoped c depth) ≠ .ok a u :=
      fails_of_not_hasMember fun u hu => hasIt ⟨u, hu⟩
    have hprimary : ∀ a u, (primary s call).run (unscoped c depth) ≠ .ok a u := by
      intro a u hrun
      rw [run_primary_name hc] at hrun
      obtain ⟨found, t, hfound, hrun⟩ := eq_ok_of_bind hrun
      cases found with
      | true => exact hasIt ⟨t, hfound⟩
      | false => cases hrun
    rw [run_bind, run_bind]
    -- Neither walk succeeds, so only the failures have to be compared.
    generalize (primary s call).run (unscoped c depth) = o at hprimary
    generalize (memberAccess s call s.context .ofInstance).run (unscoped c depth) = q at hmember hfails
    generalize (memberAccess s call s.context .ofInstance).run (unscoped f depth) = q' at hmember
    cases o with
    | ok a u => exact absurd rfl (hprimary a u)
    | error failure u =>
      cases hmember with
      | ok h hQ => exact absurd rfl (hfails _ _)
      | error h hf => exact .error

/-! ## §4. From the operand to the expression. -/

/-- A rule that starts with one that coincides does so as well. -/
theorem coincides_body {r r' : Rule} (hcall : AlikeCalls elsewhere call) (hinner : r.inner? = some r')
    (hsign : NoSign c ∧ NoSign d) (h : ∀ depth, Coincides elsewhere depth ((call r').run (unscoped c depth))
      ((call r').run (unscoped d depth))) (depth : Nat) :
    Coincides elsewhere depth ((body s call r).run (unscoped c depth))
      ((body s call r).run (unscoped d depth)) := by
  have hafter := (h depth).bind (alike_afterFirst (s := s) hcall r (a := 0) (b := 0) fun _ => trivial)
  -- The two rules that count a level do so in both walks; the others call the next rule at once.
  cases r with
  | conditional =>
    cases hinner
    apply coincides_nested
    exact (h (depth + 1)).bind (alike_afterFirst hcall conditional fun _ => trivial)
  | unary =>
    cases hinner
    apply coincides_nested
    rw [run_of_noSign (v := unscoped c (depth + 1)) hsign.1, run_of_noSign (v := unscoped d (depth + 1)) hsign.2]
    exact h (depth + 1)
  | operand => cases hinner
  | _ =>
    cases hinner
    exact hafter

/-- **Every rule coincides at the name by itself and at `it.`**, with any budget. -/
theorem coincides_run (hc : OnMember s c) (hd : AfterIt c d e f) (k : Nat) (r : Rule) (depth : Nat) :
    Coincides elsewhere depth ((run s k r).run (unscoped c depth)) ((run s k r).run (unscoped d depth)) := by
  have hsign : NoSign d := by
    have hnot : Text.sameWord "it" "not" = false := by decide
    simp [NoSign, Cursor.isAny, Cursor.isWord, hd.kind, hd.it, hnot]
  induction k generalizing r depth with
  | zero => exact .error
  | succ k ih =>
    have hcall : AlikeCalls elsewhere (run s k) := alike_run elsewhere s k
    cases hinner : r.inner? with
    | some r' => exact coincides_body hcall hinner ⟨hc.sign, hsign⟩ (ih r') depth
    | none =>
      cases r <;> cases hinner
      exact coincides_operand hcall hc hd depth

end Rule

/-! ## §5. Texts. -/

variable {s : Setting} {X R : String} {t : TypeDef}

/-- What is typed from cursors at which the rules coincide. -/
theorem typeOf_eq_ok_iff {c d : Cursor} (h : Coincides elsewhere 0
    ((Rule.run s Rule.budget .conditional).run ⟨c, 0, []⟩)
    ((Rule.run s Rule.budget .conditional).run ⟨d, 0, []⟩)) :
    s.typeOf c = .ok t ↔ s.typeOf d = .ok t := by
  unfold Setting.typeOf
  generalize (Rule.run s Rule.budget .conditional).run ⟨c, 0, []⟩ = o at h
  generalize (Rule.run s Rule.budget .conditional).run ⟨d, 0, []⟩ = q at h
  cases h with
  | ok h =>
    dsimp only
    rw [isFinish_eq h.alike]
    split
    · exact Iff.rfl
    · exact ⟨nofun, nofun⟩
  | error => exact ⟨nofun, nofun⟩

/-- A text that starts with a name opens with it. -/
theorem open_name (hname : ReadAsName X) (hR : EndsName R.toList) : ∃ c, Cursor.open? (X ++ R).toList = .ok c ∧
    c.current = ⟨.identifier, X, 0⟩ ∧ c.rest = R.toList ∧ c.size = (X ++ R).utf8ByteSize := by
  refine ⟨⟨(X ++ R).utf8ByteSize, 0 + X.utf8ByteSize, R.toList, ⟨.identifier, X, 0⟩⟩, ?_, rfl, rfl, rfl⟩
  rw [Cursor.open?, Text.byteSize_toList, String.toList_append]
  exact hname.read hR _ _ _

/-- With `it.` before it, `it`, a dot and the name come one after the other. -/
theorem open_it (hname : ReadAsName X) (hR : EndsName R.toList) : ∃ d e f,
    Cursor.open? ("it." ++ X ++ R).toList = .ok d ∧ d.current = ⟨.identifier, "it", 0⟩ ∧ d.next = .ok e ∧
      e.current.kind = .dot ∧ e.size = ("it." ++ X ++ R).utf8ByteSize ∧ e.next = .ok f ∧
      f.current = ⟨.identifier, X, 3⟩ ∧ f.rest = R.toList ∧ f.size = e.size := by
  have hit : ReadAsName "it" := rfl
  have hdot : EndsName ('.' :: (X.toList ++ R.toList)) := endsName_cons rfl
  refine ⟨⟨("it." ++ X ++ R).utf8ByteSize, 2, '.' :: (X.toList ++ R.toList), ⟨.identifier, "it", 0⟩⟩,
    ⟨("it." ++ X ++ R).utf8ByteSize, 3, X.toList ++ R.toList, ⟨.dot, ".", 2⟩⟩, _, ?_, rfl, rfl, rfl, rfl,
    hname.read hR _ _ _, rfl, rfl, rfl⟩
  have hlist : ("it." ++ X ++ R).toList = "it".toList ++ '.' :: (X.toList ++ R.toList) := by simp
  rw [Cursor.open?, Text.byteSize_toList, hlist]
  exact hit.read hdot _ _ _

/-- **A name by itself is a member of `it`.**  Before anything that does not go on with it, a name that is no
keyword, no accessible type and no namespace is typed as it is after `it.`, and fails where it fails there. -/
theorem compile_implicit_it (s : Setting) {X R : String} (hname : ReadAsName X) (hat : '@' ∉ X.toList)
    (hkeyword : Text.lower X ∉ Rule.keywords) (halias : Known.ofKeyword? X = none)
    (htype : s.registry.findAccessible? X (some s.context) = none)
    (hnamespace : s.registry.isNamespace X (some s.context) = false) (hR : EndsName R.toList) (t : TypeDef) :
    s.compile (X ++ R) = .ok t ↔ s.compile ("it." ++ X ++ R) = .ok t := by
  obtain ⟨c, hopen, hc, hrest, hsize⟩ := open_name hname hR
  obtain ⟨d, e, f, hopen', hd, hnext, hdot, hsize', hnext', hf, hrest', hf'⟩ := open_it hname hR
  have hplain : plainName c.current.text = X := by
    rw [hc]
    exact plainName_of_not_mem hat
  have hsign : Rule.NoSign c := by
    rw [Rule.NoSign, Cursor.isWord_of_open hopen (by decide), Cursor.isAny, hc]
    rfl
  have hwordType : Rule.wordType? s X = none := by
    unfold Rule.wordType?
    rw [halias]
    exact htype
  -- The word opens neither a keyword nor the name of a type, so it is a member or a fault.
  have hmember : Rule.OnMember s c :=
    ⟨by rw [hc], hplain ▸ hkeyword, hplain ▸ hwordType, hplain ▸ hnamespace, hsign⟩
  have hlonger : c.size < e.size := by
    rw [hsize, hsize']
    simp only [String.utf8ByteSize_append, show "it.".utf8ByteSize = 3 from rfl]
    omega
  -- From the word on, both texts have the same tokens.
  have helsewhere : Elsewhere c f := by
    exact ⟨by rw [hc, hf], by rw [hc, hf], by rw [hrest, hrest'], Cursor.ahead_le_size hopen, by omega⟩
  have hafter : Rule.AfterIt c d e f :=
    ⟨by rw [hd], by rw [hd], hnext, hdot, hnext', helsewhere, hlonger⟩
  unfold Setting.compile
  rw [hopen, hopen']
  exact typeOf_eq_ok_iff (Rule.coincides_run hmember hafter Rule.budget .conditional 0)

/-- A length by itself and after `it.`, in a sum. -/
theorem compile_implicit_it_of_length :
    ReadAsName "Length" ∧ '@' ∉ "Length".toList ∧ Text.lower "Length" ∉ Rule.keywords ∧
      Known.ofKeyword? "Length" = none ∧ ofText.registry.findAccessible? "Length" (some ofText.context) = none ∧
      ofText.registry.isNamespace "Length" (some ofText.context) = false ∧ EndsName " + 1".toList ∧
      ofText.compile ("Length" ++ " + 1") = .ok (Operand.predefined Known.int32).type ∧
      ofText.compile ("it." ++ "Length" ++ " + 1") = .ok (Operand.predefined Known.int32).type := by
  have hname : ReadAsName "Length" := rfl
  have hat : '@' ∉ "Length".toList := by decide
  have hkeyword : Text.lower "Length" ∉ Rule.keywords := by decide
  have halias : Known.ofKeyword? "Length" = none := by decide
  have htype : ofText.registry.findAccessible? "Length" (some ofText.context) = none := by decide +kernel
  have hnamespace : ofText.registry.isNamespace "Length" (some ofText.context) = false := by decide +kernel
  have hR : EndsName " + 1".toList := endsName_cons rfl
  have hcompile : ofText.compile ("Length" ++ " + 1") = .ok (Operand.predefined Known.int32).type := by
    decide +kernel
  exact ⟨hname, hat, hkeyword, halias, htype, hnamespace, hR, hcompile,
    (compile_implicit_it ofText hname hat hkeyword halias htype hnamespace hR _).1 hcompile⟩

end TypeAhead.Typing
