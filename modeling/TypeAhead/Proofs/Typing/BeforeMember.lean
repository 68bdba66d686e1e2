/-
  TypeAhead.Proofs.Typing.BeforeMember — AN OPERAND BEFORE A MEMBER.

  Where all of a text is one operand, a dot and a name after it are one thing more that
  is attached to it: what was read of the text is read again, and the loop over what is
  attached comes to the dot.  The operand is no deeper than before.

  Two texts are no operands by themselves before a member.  The name of a type is one only
  with the member, and a name of several words may be that of a type with the member as
  its last word.

      untilMember            the two texts
      run_operand_member     the operand with the member
      compile_member         the type of the longer text
-/
import TypeAhead.Proofs.MemberAccess
import TypeAhead.Proofs.Typing.FullName

namespace TypeAhead.Typing

open Walker Fragment

/-! ## §1. A text before a member. -/

/-- The cursors stand on the same token of a text and of the text with a member after it. -/
structure Twinned (text more : List Char) (c d : Cursor) : Prop where
  reached : ∃ past r, Reaches text past r ∧ c.size = r.size ∧ c.offset = r.offset ∧ c.rest = r.rest ∧
    c.current.kind = r.current.kind
  face_eq : d.current.face = c.current.face
  offset_eq : d.offset = c.offset
  rest_eq : d.rest = c.rest ++ more
  finish : c.current.isFinish = false
  size_le : c.size + 2 ≤ d.size

/-- The text is over, and the member begins. -/
structure Parted (text more : List Char) (c d : Cursor) : Prop where
  reached : ∃ past, Reaches text past c
  finish : AtEnd c
  first : OnFirst more d
  size_le : c.size + 2 ≤ d.size

variable {text more : List Char} {c d : Cursor}

/-- Going on leads to the same token, or to the member. -/
theorem Twinned.next (h : Twinned text more c d) (hmore : Precedes text more) {c' : Cursor}
    (hnext : c.next = .ok c') : ∃ d', d.next = .ok d' ∧ (Twinned text more c' d' ∨ Parted text more c' d') := by
  obtain ⟨past, r, hr, hsize, hoffset, hrest, hkind⟩ := h.reached
  have hfinish : r.current.isFinish = false := by
    rw [Token.isFinish, ← hkind]
    exact h.finish
  have hd : d.current.kind = r.current.kind := (Prod.mk.inj h.face_eq).1.trans hkind
  have hnext' : r.next = .ok c' := (Cursor.next_congr hsize hoffset hrest hkind hfinish).symm.trans hnext
  -- The shorter text is looked at from the token that stands there by itself, which has the same face.
  have halike : Fragment.Alike text more 0 r { d with current := r.current } :=
    ⟨⟨_, .of_reaches hr⟩, rfl, rfl, rfl, h.offset_eq.trans hoffset, by rw [← hrest]; exact h.rest_eq,
      fun _ => hfinish⟩
  obtain ⟨d', hd', hsize₁, hsize₂, hcase⟩ := hmore.next halike hnext'
  have hsize' : c'.size + 2 ≤ d'.size := by
    have := h.size_le
    dsimp only at hsize₂
    omega
  -- Where the longer walk goes on depends on the place alone.
  have hlonger : d.next = .ok d' := by
    rw [← hd']
    exact Cursor.next_congr rfl rfl rfl hd hfinish
  refine ⟨d', hlonger, ?_⟩
  -- The next token is the same one, or the shorter text is over and the dot follows.
  rcases hcase with halike | ⟨hover, hfirst⟩
  · obtain ⟨past', r', hr', hsize, hoffset, hrest, hkind, -⟩ := halike.stands
    exact .inl ⟨⟨past', r', hr', hsize, hoffset, hrest, hkind⟩, congrArg₂ Prod.mk halike.kind_eq halike.text_eq,
      halike.offset_eq, halike.rest_eq, halike.finish hmore.ne_nil, hsize'⟩
  · exact .inr ⟨⟨_, hr.next hfinish hnext'⟩, hover, hfirst, hsize'⟩

/-- **A text goes on before a member as it does by itself**, and there is more room. -/
def untilMember (hmore : Precedes text more) : Enclosure .member true where
  twin := Twinned text more
  edge := Parted text more
  level := 0
  face_eq h := h.face_eq
  next h hnext := h.next hmore hnext
  replace {c d s t} h hs hface :=
    have ⟨past, r, hr, hsize, hoffset, hrest, hkind⟩ := h.reached
    ⟨⟨past, r, hr, hsize, hoffset, hrest, hs.trans hkind⟩, hface, h.offset_eq, h.rest_eq,
      by rw [Token.isFinish, hs]; exact h.finish, h.size_le⟩
  closes hm := absurd rfl hm
  same := nofun
  member _ h := ⟨hmore.lastMember h.first, Nat.lt_of_lt_of_le (Nat.lt_add_of_pos_right (by decide)) h.size_le⟩
  ahead_eq h := by rw [Cursor.ahead, if_pos h.finish]
  size_le _ h := Nat.le_trans (Nat.le_add_right _ 2) (h.elim (fun h => h.size_le) fun h => h.size_le)
  text_of_finish h hfinish := have ⟨_, hr⟩ := h.reached; Rule.text_of_reaches hr hfinish

/-- A text and the same text with a member after it open alike. -/
theorem exists_twinned (hmore : Precedes text more) (hopen : Cursor.open? text = .ok c)
    (hc : c.current.isFinish = false) :
    ∃ d, Cursor.open? (text ++ more) = .ok d ∧ Twinned text more c d ∧ d.current = c.current := by
  obtain ⟨d, hopen', halike, hlonger, hcurrent⟩ := hmore.open_longer hopen hc
  have hface : d.current.face = c.current.face := by rw [hcurrent]
  exact ⟨d, hopen', ⟨⟨[], c, .first hopen, rfl, rfl, rfl, rfl⟩, hface, halike.offset_eq, halike.rest_eq, hc, hlonger⟩,
    hcurrent⟩

/-- After the dot comes the name, and then the end. -/
theorem next_of_onFirst {word : String} (hword : ReadAfterDot word) (hd : OnFirst ('.' :: word.toList) d) :
    d.current.kind = .dot ∧ ∃ e f, d.next = .ok e ∧ e.current.kind = .identifier ∧ e.current.text = word ∧
      e.next = .ok f ∧ AtEnd f := by
  obtain ⟨previous, start, hread⟩ := hd
  have hdot : Scan.token previous start ('.' :: word.toList) = .ok (⟨.dot, ".", start⟩, word.toList) := rfl
  rw [read_eq_of_token hdot] at hread
  rw [← Except.ok.inj hread]
  exact ⟨rfl, _, _, hword.read _ _, rfl, rfl, rfl, rfl⟩

namespace Rule

variable {s : Setting} {call call' : Rule → Typer Operand} {w v u : ScopedWalk} {a b : Operand}
  {hmore : Precedes text more}

/-- What comes to an end before the member comes to the same in the longer text. -/
theorem ok_of_copies {α : Type} {x y : Typer α} {past : Nat} {a : α}
    (h : (untilMember hmore).Copies past 0 x y w v) (hrun : x.run w = .ok a u) :
    ∃ t, y.run v = .ok a t ∧ (untilMember hmore).Pair u t := by
  obtain ⟨-, hsame⟩ := h a u hrun
  rcases hsame (Nat.zero_le _) with ⟨hloose, -⟩ | hsame
  · cases hloose
  · exact hsame

/-! ## §2. One thing more that is attached. -/

/-- Where something is attached, the loop goes on. -/
theorem again_of_attachedStep {again : Bool} (htakes : operand.goesOn w.cursor = true)
    (hrun : (attachedStep s call a).run w = .ok (again, b) u) : again = true := by
  have htakes : w.cursor.current.kind = .dot ∨ w.cursor.current.kind = .propagate ∨
      w.cursor.current.kind = .openBracket := by simpa [goesOn, Cursor.isAny] using htakes
  unfold attachedStep kind at hrun
  rw [run_lookThen] at hrun
  rcases htakes with hkind | hkind | hkind <;> rw [hkind] at hrun
  · obtain ⟨_, _, -, hrun⟩ := eq_ok_of_bind hrun
    obtain ⟨_, _, -, hrun⟩ := eq_ok_of_bind hrun
    cases hrun
    rfl
  · cases hrun
  · obtain ⟨_, _, -, hrun⟩ := eq_ok_of_bind hrun
    cases hrun
    rfl

/-- **What is attached to an operand up to the end of a text** is attached to it before the member as well,
and there the loop goes on. -/
theorem run_attached_member (hcall : CopiesCalls true call call') {n n' : Nat} (hn : n + 2 ≤ n')
    (h : (untilMember hmore).Pair w v) (hrun : (repeatUpTo (attachedStep s call) n a).run w = .ok b u)
    (hu : AtEnd u.cursor) : ∃ k t, (repeatUpTo (attachedStep s call') n' a).run v =
      (repeatUpTo (attachedStep s call') (k + 2) b).run t ∧ OnFirst more t.cursor := by
  -- By induction on the rounds that are left for the shorter text.
  induction n generalizing n' a w v with
  | zero => cases hrun
  | succ n ih =>
    obtain ⟨⟨again, a₁⟩, u₁, hstep, hrest⟩ := eq_ok_of_bind hrun
    rcases h.place with hplace | hplace
    · have htwin : (untilMember hmore).Twin w v := ⟨hplace, h.held_eq, h.depth_eq⟩
      -- Before the end, both take the same round or none.
      cases htakes : operand.goesOn w.cursor with
      | false =>
        -- The text is not over yet.
        cases (run_attachedStep_of_stop a htakes).symm.trans hstep
        cases hrest
        cases hplace.finish.symm.trans hu
      | true =>
        obtain rfl := again_of_attachedStep htakes hstep
        obtain ⟨t₁, hstep', hpair⟩ := ok_of_copies (copies_attachedStep hcall a htakes htwin) hstep
        obtain ⟨n', rfl⟩ : ∃ k, n' = k + 1 := ⟨n' - 1, by omega⟩
        have hn' : n + 2 ≤ n' := by omega
        obtain ⟨k, t, hsame, ht⟩ := ih hn' hpair hrest
        exact ⟨k, t, (run_bind_of_ok hstep').trans hsame, ht⟩
    -- At its end the shorter text has nothing more to attach, and the longer one has the member.
    · have hstop : operand.goesOn w.cursor = false := stops_finish operand hplace.finish operand (.refl _)
      cases (run_attachedStep_of_stop a hstop).symm.trans hstep
      cases hrest
      have hroom : 2 ≤ n' := by omega
      exact ⟨n' - 2, v, by rw [Nat.sub_add_cancel hroom], hplace.first⟩

/-- A member after an operand, with which the text ends. -/
theorem run_lastMember {word : String} {k : Nat} {m : FoundMember} {type : TypeDef} (hword : ReadAfterDot word)
    (hv : OnFirst ('.' :: word.toList) v.cursor)
    (hfound : s.registry.findMember? a.type (plainName word) .ofInstance s.parsing.ignoreCase = some m)
    (htype : s.registry.get? m.type = some type) :
    ∃ e, AtEnd e ∧ (repeatUpTo (attachedStep s call) (k + 2) a).run v =
      .ok { type, name := some m.name } (v.moved e) := by
  obtain ⟨hdot, e, f, hnext, hname, htext, hnext', hover⟩ := next_of_onFirst hword hv
  -- Nothing follows the name, so it is not called.
  have hend : f.current.kind ≠ .openParen := by
    have hkind : f.current.kind = .finish := Token.isFinish_iff.1 hover
    rw [hkind]
    decide
  have hmember : (memberAccess s call a.type .ofInstance).run (v.moved e) =
      .ok { type, name := some m.name } (v.moved f) :=
    run_memberAccess_of_found hname hnext' hend (htext.symm ▸ hfound) htype
  have hstep : (attachedStep s call a).run v = .ok (true, { type, name := some m.name }) (v.moved f) := by
    unfold attachedStep kind
    rw [run_lookThen, hdot, run_bind_of_ok (run_advance hnext), run_bind_of_ok hmember]
    rfl
  -- The loop sees the end of the text and stops.
  have hstop : operand.goesOn (v.moved f).cursor = false := stops_finish operand hover operand (.refl _)
  refine ⟨f, hover, ?_⟩
  exact (run_bind_of_ok hstep).trans (run_bind_of_ok (run_attachedStep_of_stop _ hstop))

/-! ## §3. The operand with the member. -/

/-- **An operand with which a text ends, and the member after it**, with the same budget. -/
theorem run_operand_member {word : String} {hmore : Precedes text ('.' :: word.toList)} {m : FoundMember}
    {type : TypeDef} {k : Nat} (hword : ReadAfterDot word) (hname : OpensName w → NamesNothing s w v)
    (h : (untilMember hmore).Twin w v) (hrun : (run s k operand).run w = .ok a u) (hu : AtEnd u.cursor)
    (hfound : s.registry.findMember? a.type (plainName word) .ofInstance s.parsing.ignoreCase = some m)
    (htype : s.registry.get? m.type = some type) :
    ∃ e, AtEnd e ∧ (run s k operand).run v = .ok { type, name := some m.name } (v.moved e) := by
  cases k with
  | zero => cases hrun
  | succ k =>
    obtain ⟨first, u₁, hprimary, hattached⟩ := eq_ok_of_bind
      (show (primary s (run s k) >>= attached s (run s k)).run w = .ok a u from hrun)
    have hcall : CopiesCalls true (run s k) (run s k) := copiesCalls_run s fun _ => Nat.le_refl k
    obtain ⟨t₁, hprimary', hpair⟩ := ok_of_copies (copies_primary hcall (fun _ => hname) h) hprimary
    -- There are rounds enough, as the member is two tokens more.
    have hroom : u₁.cursor.size + 2 + 2 ≤ t₁.cursor.size + 2 :=
      Nat.add_le_add_right (hpair.place.elim Twinned.size_le Parted.size_le) 2
    obtain ⟨j, t, hsame, ht⟩ := run_attached_member hcall hroom hpair hattached hu
    obtain ⟨e, he, hlast⟩ := run_lastMember hword ht hfound htype
    have hrun' : (run s (k + 1) operand).run v = .ok { type, name := some m.name } (t.moved e) :=
      (run_bind_of_ok hprimary').trans (hsame.trans hlast)
    -- A rule moves the place alone, so the scopes and the depth are the old ones.
    have hmoved := keeps_of_follows (follows_run scopeCourse s (k + 1) operand) v
    rw [hrun'] at hmoved
    exact ⟨e, he, hrun'.trans (congrArg _ hmoved)⟩

/-- Outside of all scopes, the rule comes from `c` to the end of the text with `a`, if it succeeds; and then
from `d` it comes to the end with `b`. -/
def Carries (s : Setting) (c d : Cursor) (a b : Operand) (r : Rule) : Prop :=
  ∀ (k depth : Nat) (a' : Operand) (u : ScopedWalk), (run s k r).run (unscoped c depth) = .ok a' u →
    a' = a ∧ AtEnd u.cursor ∧ ∃ e, AtEnd e ∧ (run s k r).run (unscoped d depth) = .ok b (unscoped e depth)

/-- **From an operand to a looser rule**, with the same budget and depth. -/
theorem Carries.outward (h : Carries s c d a b operand) (hc : NoSign c) (hd : NoSign d) (r : Rule) :
    Carries s c d a b r := by
  refine (operand_inner r).outward (P := Carries s c d a b) (fun _ => hc) h ?_
  intro r r' hinner _ hr' k depth a' u hrun
  cases k with
  | zero => cases hrun
  | succ k =>
    -- Nothing follows the operand, so whatever a looser rule reads first is all that it reads.
    have hthen : ∀ depth position position' a' u,
        (run s k r' >>= afterFirst s (run s k) r position).run (unscoped c depth) = .ok a' u →
        a' = a ∧ AtEnd u.cursor ∧ ∃ e, AtEnd e ∧
          (run s k r' >>= afterFirst s (run s k) r position').run (unscoped d depth) = .ok b (unscoped e depth) := by
      intro depth position position' a' u hrun
      obtain ⟨a₁, u₁, hfirst, hafter⟩ := eq_ok_of_bind hrun
      obtain ⟨rfl, hover, e, he, hrun'⟩ := hr' k depth a₁ u₁ hfirst
      cases (run_afterFirst_of_stop (stops_finish r hover).goesOn position).symm.trans hafter
      refine ⟨rfl, hover, e, he, (run_bind_of_ok hrun').trans ?_⟩
      exact run_afterFirst_of_stop (v := unscoped e depth) (stops_finish r he).goesOn position'
    -- A rule calls the next one itself, or one level deeper.
    rcases run_body_of_inner s (run s k) hinner with hbody | hbody
    · obtain ⟨ha, hover, e, he, hrun'⟩ :=
        hthen depth _ d.current.start a' u ((hbody _ fun _ => hc).symm.trans hrun)
      exact ⟨ha, hover, e, he, (hbody (unscoped d depth) fun _ => hd).trans hrun'⟩
    · obtain ⟨hdepth, u', hdeeper, rfl⟩ := eq_ok_of_nested ((hbody _ fun _ => hc).symm.trans hrun)
      obtain ⟨ha, hover, e, he, hrun'⟩ := hthen (depth + 1) _ d.current.start a' u' hdeeper
      exact ⟨ha, hover, e, he, (hbody (unscoped d depth) fun _ => hd).trans (run_nested_of_ok hdepth hrun')⟩

/-- The name of a type is the same at any depth. -/
theorem run_typeName_unscoped {depth : Nat} {t : TypeDef}
    (hrun : (typeName s).run (unscoped c depth) = .ok (some t) u) (depth' : Nat) :
    (typeName s).run (unscoped c depth') = .ok (some t) (unscoped u.cursor depth') := by
  -- To go on takes no depth.
  have hgo : ∀ {t' : TypeDef} {e : Cursor},
      (do advance; pure (some t') : Typer (Option TypeDef)).run (unscoped e depth) = .ok (some t) u →
      (do advance; pure (some t') : Typer (Option TypeDef)).run (unscoped e depth') =
        .ok (some t) (unscoped u.cursor depth') := by
    intro t' e hrun
    obtain ⟨_, u', hadvance, hrun⟩ := eq_ok_of_bind hrun
    cases hrun
    obtain ⟨f, hnext, rfl⟩ := eq_ok_of_advance hadvance
    exact run_bind_of_ok (run_advance (w := unscoped e depth') hnext)
  -- The rule looks at the text, and only a name that means a type goes on.
  unfold typeName at hrun ⊢
  rw [run_bind_of_ok (show cursor.run (unscoped c depth) = .ok c _ from rfl)] at hrun
  rw [run_bind_of_ok (show cursor.run (unscoped c depth') = .ok c _ from rfl)]
  dsimp only at hrun ⊢
  split at hrun
  · exact hgo hrun
  · split at hrun
    · rename_i hspace
      rw [if_pos hspace]
      cases hfound : qualifiedType? s (plainName c.current.text) c (c.size + 2) with
      | error fault =>
        rw [hfound] at hrun
        cases hrun
      | ok found =>
        rw [hfound] at hrun
        cases found with
        | none => cases hrun
        | some found => exact hgo hrun
    · cases hrun

end Rule

/-! ## §4. Texts. -/

variable {s : Setting} {operand word : String} {t type : TypeDef} {m : FoundMember}

/-- All of the text is read as one operand, before which no operator stands. -/
def Setting.OneOperand (s : Setting) (text : String) : Prop :=
  ∃ c a u, Cursor.open? text.toList = .ok c ∧ Rule.NoSign c ∧
    (Rule.run s Rule.budget .operand).run ⟨c, 0, []⟩ = .ok a u ∧ AtEnd u.cursor

/-- All of the text is read as the name of the type. -/
def Setting.NamesType (s : Setting) (text : String) (t : TypeDef) : Prop :=
  ∃ c u, Cursor.open? text.toList = .ok c ∧ Rule.OpensName ⟨c, 0, []⟩ ∧
    (Rule.typeName s).run ⟨c, 0, []⟩ = .ok (some t) u ∧ AtEnd u.cursor

/-- **An operand with a member after it has the type of the member**, unless the two are the name of a
type. -/
theorem compile_member (hword : ReadAfterDot word) (hlast : operand.toList.getLast? ≠ some '?')
    (hcompile : s.compile operand = .ok t) (hone : s.OneOperand operand)
    (hname : ∀ u, ¬ s.NamesType (operand ++ "." ++ word) u)
    (hfound : s.registry.findMember? t (plainName word) .ofInstance s.parsing.ignoreCase = some m)
    (htype : s.registry.get? m.type = some type) : s.compile (operand ++ "." ++ word) = .ok type := by
  obtain ⟨c, a, u, hopen, hsign, hrun, hu⟩ := hone
  obtain ⟨a', ⟨c', u', hopen₁, hwhole, -⟩, rfl⟩ := compile_eq_ok_iff.1 hcompile
  obtain rfl : c = c' := Except.ok.inj (hopen.symm.trans hopen₁)
  have hmore : Precedes operand.toList ('.' :: word.toList) := precedes_dot hword (rest_ne_nil_of_question hlast)
  -- However deep, the operand is the same one.
  have hsame : ∀ k depth a' u', (Rule.run s k .operand).run (unscoped c depth) = .ok a' u' →
      a' = a ∧ AtEnd u'.cursor := by
    intro k depth a' u' hrun'
    have hpair : (Enclosure.self : Enclosure .bracket false).Pair (⟨c, 0, []⟩ : ScopedWalk) (unscoped c depth) :=
      ⟨.inl ⟨rfl, rfl, rfl, rfl⟩, rfl, fun h => Bool.noConfusion h⟩
    obtain ⟨-, hcopies⟩ := Rule.copies_run s (by decide) (fun h => Bool.noConfusion h) .operand hpair a u hrun
    rcases hcopies (Nat.zero_le _) with ⟨-, position, t, hdeep⟩ | ⟨t, hok, hplace, -⟩
    · cases hdeep.symm.trans hrun'
    · cases hok.symm.trans hrun'
      refine ⟨rfl, ?_⟩
      have hface : u'.cursor.current.face = u.cursor.current.face := hplace.elim And.left False.elim
      rw [AtEnd, Token.isFinish, (Prod.mk.inj hface).1]
      exact hu
  -- A text that is over has no operand.
  have hc : c.current.isFinish = false := by
    have hpast := Rule.ahead_lt_of_run hrun
    cases hc : c.current.isFinish with
    | false => rfl
    | true => simp [Cursor.ahead, hc] at hpast
  obtain ⟨d, hopen', htwin, hcurrent⟩ := exists_twinned hmore hopen hc
  have hlist : (operand ++ "." ++ word).toList = operand.toList ++ '.' :: word.toList := by simp
  rw [← hlist] at hopen'
  have hsign' : Rule.NoSign d := by
    rw [Rule.NoSign, Cursor.isAny, Cursor.isWord, hcurrent]
    exact hsign
  -- By itself, the operand is that of the whole text.
  have hself : Rule.Carries s c c a a .operand := by
    intro k depth a' u' hrun'
    obtain ⟨rfl, hu'⟩ := hsame k depth a' u' hrun'
    have hmoved := keeps_of_follows (Rule.follows_run scopeCourse s k .operand) (unscoped c depth)
    rw [hrun'] at hmoved
    exact ⟨rfl, hu', u'.cursor, hu', hrun'.trans (congrArg _ hmoved)⟩
  obtain ⟨rfl, -⟩ := hself.outward hsign hsign .conditional _ 0 a' u' hwhole
  -- The same operand with the member after it, at any depth.
  have hcarries : Rule.Carries s c d a' { type, name := some m.name } .operand := by
    intro k depth a' u' hrun'
    obtain ⟨rfl, hu'⟩ := hsame k depth a' u' hrun'
    have hpair : (untilMember hmore).Twin (unscoped c depth) (unscoped d depth) := ⟨htwin, rfl, fun _ => rfl⟩
    refine ⟨rfl, hu', Rule.run_operand_member hword ?_ hpair hrun' hu' hfound htype⟩
    intro hopens v t v' _ hnamed hover
    exact hname t ⟨d, _, hopen', ⟨hcurrent ▸ hopens.1, hcurrent ▸ hopens.2.1, rfl⟩,
      Rule.run_typeName_unscoped hnamed 0, hover⟩
  obtain ⟨-, -, e, he, hlonger⟩ := hcarries.outward hsign hsign' .conditional _ 0 a' u' hwhole
  exact compile_eq_ok_iff.2 ⟨_, ⟨d, _, hopen', hlonger, he⟩, rfl⟩

/-- **The name of a type with a static member after it has the type of the member.** -/
theorem compile_static {name : String} (hword : ReadAfterDot word) (hlast : name.toList.getLast? ≠ some '?')
    (hname : s.NamesType name t)
    (hfound : s.registry.findMember? t (plainName word) .ofType s.parsing.ignoreCase = some m)
    (htype : s.registry.get? m.type = some type) : s.compile (name ++ "." ++ word) = .ok type := by
  obtain ⟨c, u, hopen, hopens, hrun, hu⟩ := hname
  have hmore : Precedes name.toList ('.' :: word.toList) := precedes_dot hword (rest_ne_nil_of_question hlast)
  have hc : c.current.isFinish = false := Token.isFinish_of_kind hopens.1 (by decide)
  obtain ⟨d, hopen', htwin, hcurrent⟩ := exists_twinned hmore hopen hc
  have hlist : (name ++ "." ++ word).toList = name.toList ++ '.' :: word.toList := by simp
  rw [← hlist] at hopen'
  -- The name is read alike in both texts, and in the longer one the member follows.
  have hpair : (untilMember hmore).Twin (⟨c, 0, []⟩ : ScopedWalk) ⟨d, 0, []⟩ := ⟨htwin, rfl, fun _ => rfl⟩
  have hnothing : Rule.NamesNothing s ⟨c, 0, []⟩ ⟨d, 0, []⟩ := by
    intro v t' v' hnone
    cases hrun.symm.trans hnone
  obtain ⟨t', hrun', hplace, -⟩ := Rule.ok_of_copies (Rule.copies_typeName (fun _ => hnothing) hpair) hrun
  have hfirst : OnFirst ('.' :: word.toList) t'.cursor := by
    rcases hplace with hplace | hplace
    · cases hplace.finish.symm.trans hu
    · exact hplace.first
  obtain ⟨hdot, e, f, hnext, hkind, htext, hnext', hover⟩ := next_of_onFirst hword hfirst
  -- What opens a name is seen at the first token, at any depth.
  have hopens' : ∀ depth, Rule.OpensName (unscoped d depth) :=
    fun _ => ⟨hcurrent ▸ hopens.1, hcurrent ▸ hopens.2.1, rfl⟩
  exact Rule.compile_of_operand hopen' (hopens' 0).1 hover (Rule.readsIn_of_typeName hopens'
    (fun depth => Rule.run_typeName_unscoped hrun' depth) hdot hnext hkind hnext' hover (htext.symm ▸ hfound) htype)

end TypeAhead.Typing
