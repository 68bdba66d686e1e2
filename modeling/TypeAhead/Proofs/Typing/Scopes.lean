/-
  TypeAhead.Proofs.Typing.Scopes — NO RULE LEAVES A SCOPE BEHIND.

  The body of a sequence operator is typed in a scope of its own.  Whether a rule
  succeeds or fails, afterwards the scopes are those in which it started and the
  depth is the same, so that a word means after a sequence operator what it meant
  before.  During the walk of a text there is always the scope of the context, and
  there are never more scopes or levels than the limits allow.

      scopeCourse         what a rule does to scopes and depth
      scope_discipline    all rules, and the walk of a text
-/
import TypeAhead.Proofs.Typing.EveryRule

namespace TypeAhead.Typing

open Walker

variable {α : Type}

/-! ## §1. The stack of scopes. -/

/-- All scopes where bodies have opened the given ones, the outermost first: it is that of the
context, which no body opens or closes. -/
def Setting.stack (s : Setting) (held : List Scope) : List Scope := ⟨s.context, none⟩ :: held.reverse

section

variable (s : Setting) (held : List Scope)

theorem length_stack : (s.stack held).length = held.length + 1 := by simp [Setting.stack]

/-- `it` is that of the last scope. -/
theorem last_stack : (s.stack held)[(s.stack held).length - 1]?.map Scope.it = some (s.it held) := by
  cases held <;> simp [Setting.stack, Setting.it]

/-- `parent` is that of the last scope but one. -/
theorem last_but_one_stack (h : 2 ≤ (s.stack held).length) :
    (s.stack held)[(s.stack held).length - 2]?.map Scope.it = some (s.it held.tail) := by
  cases held with
  | nil => simp [Setting.stack] at h
  | cons scope outer =>
    have hlast := last_stack s outer
    simp only [length_stack, List.length_cons, List.tail_cons] at hlast ⊢
    rw [← hlast]
    simp only [Setting.stack, List.reverse_cons]
    rw [← List.cons_append, List.getElem?_append_left (by simp)]
    rfl

/-- A name is looked up from the innermost scope on, and the context gives none. -/
theorem find?_stack (word : String) :
    (s.stack held).reverse.find? (fun scope => scope.parameter == some word) =
      held.find? fun scope => scope.parameter == some word := by
  simp [Setting.stack, List.find?_append]

end

/-! ## §2. What a rule does to scopes and depth. -/

/-- The scopes and the depth are the same. -/
def SameScopes (w v : ScopedWalk) : Prop := v.held = w.held ∧ v.depth = w.depth

/-- Scopes and depth are within their limits. -/
def InBounds (w : ScopedWalk) : Prop := w.held.length + 1 ≤ Limits.scopes ∧ w.depth ≤ Limits.nesting

theorem SameScopes.trans {w v u : ScopedWalk} (h : SameScopes w v) (h' : SameScopes v u) :
    SameScopes w u := ⟨h'.1.trans h.1, h'.2.trans h.2⟩

theorem SameScopes.inBounds {w v : ScopedWalk} (h : SameScopes w v) (hw : InBounds w) : InBounds v := by
  unfold InBounds at hw ⊢
  rwa [h.1, h.2]

theorem SameScopes.eq_moved {w v : ScopedWalk} (h : SameScopes w v) : v = w.moved v.cursor := by
  obtain ⟨cursor, depth, held⟩ := v
  obtain ⟨rfl, rfl⟩ := h
  rfl

/-- The way out of a level undoes the way in. -/
theorem sameScopes_of_deeper {w v : ScopedWalk} (h : SameScopes w.deeper v) : SameScopes w v.shallower :=
  ⟨h.1, by rw [Walk.shallower, h.2]; rfl⟩

/-- The way out of a scope undoes the way in. -/
theorem sameScopes_of_scope {w v : ScopedWalk} {scope : Scope}
    (h : SameScopes { w with held := scope :: w.held } v) :
    SameScopes w { v with held := v.held.tail } :=
  ⟨by rw [h.1]; rfl, h.2⟩

/-- **A rule leaves the scopes and the depth as they were**, and on its way they stay within their
limits.  Which tokens it reads does not matter. -/
def scopeCourse : Course where
  during w v := InBounds w → InBounds v
  past := SameScopes
  failed := SameScopes
  named := SameScopes
  plain _ := True
  word _ := True
  creates _ := True
  during_self _ := id
  past_self _ := ⟨rfl, rfl⟩
  failed_self _ := ⟨rfl, rfl⟩
  past_trans := SameScopes.trans
  during_of_past h h' hw := h' (h.inBounds hw)
  failed_of_past := SameScopes.trans
  during_of_failed := SameScopes.inBounds
  during_of_moved h := h
  failed_of_moved h := h
  plain_of_kind _ := trivial
  plain_of_number _ := trivial
  plain_of_discard _ := trivial
  plain_of_word _ := trivial
  word_of_kind _ := trivial
  creates_of_word _ _ := trivial
  past_next _ _ := ⟨rfl, rfl⟩
  past_pair _ _ h _ _ := h
  past_negated _ _ := ⟨rfl, rfl⟩
  named_self _ := ⟨rfl, rfl⟩
  named_next h _ _ := h
  past_of_named := id
  past_created := by
    rintro w v u t c d e - - hnamed hmarked - - hpast - -
    refine SameScopes.trans (SameScopes.trans (v := v) hnamed ?_) hpast
    rcases hmarked with rfl | ⟨a, b, -, -, -, -, rfl⟩
    · exact ⟨rfl, rfl⟩
    · exact ⟨rfl, rfl⟩
  during_of_deeper hdepth h hw := h ⟨hw.1, hdepth⟩
  past_of_deeper _ := sameScopes_of_deeper
  failed_of_deeper _ := sameScopes_of_deeper
  during_of_scope hroom h hw := h ⟨hroom, hw.2⟩
  past_of_scope _ := sameScopes_of_scope
  failed_of_scope _ := sameScopes_of_scope

/-! ## §3. Rules that keep the scopes. -/

/-- However the rule ends, it has changed nothing but the place among the tokens. -/
def Keeps (x : Typer α) : Prop := ∀ w, (x.run w).walk = w.moved (x.run w).walk.cursor

theorem keeps_of_follows {x : Typer α} (h : ∀ w, scopeCourse.Follows x w) : Keeps x := by
  intro w
  cases hrun : x.run w with
  | ok a v => exact ((h w).ok hrun).eq_moved
  | error failure v => exact ((h w).error hrun).eq_moved

/-- One level deeper a rule keeps the scopes if it does so by itself. -/
theorem keeps_nested {x : Typer α} (hx : Keeps x) : Keeps (nested x) := by
  intro w
  have hdeeper := hx w.deeper
  unfold nested
  by_cases hdepth : Limits.nesting ≤ w.depth
  · simp only [if_pos hdepth]
    rfl
  · simp only [if_neg hdepth, between]
    cases hrun : x.run w.deeper <;> rw [hrun] at hdeeper
    · exact congrArg Walk.shallower hdeeper
    · exact congrArg Walk.shallower hdeeper

/-- Every rule and every part of one keeps the scopes. -/
structure Disciplined (s : Setting) (call : Rule → Typer Operand) : Prop where
  body : ∀ r, Keeps (Rule.body s call r)
  nested : ∀ {α : Type} (x : Typer α), Keeps x → Keeps (nested x)
  argument : Keeps (Rule.argument call)
  arguments : Keeps (Rule.arguments call)
  argumentList : Keeps (Rule.argumentList call)
  sequenceBody : ∀ element, Keeps (Rule.sequenceBody call element)
  sequenceCall : ∀ o element name, Keeps (Rule.sequenceCall s call o element name)
  methodCall : ∀ owner methods name position, Keeps (Rule.methodCall s call owner methods name position)
  memberAccess : ∀ owner binding, Keeps (Rule.memberAccess s call owner binding)
  elementAccess : ∀ owner, Keeps (Rule.elementAccess s call owner)
  typeName : Keeps (Rule.typeName s)
  typeAccess : ∀ t position, Keeps (Rule.typeAccess s call t position)
  hasMember : ∀ t name, Keeps (Rule.hasMember s t name)
  choice : Keeps (Rule.choice s call)
  nullPropagation : Keeps (Rule.nullPropagation s call)
  creation : Keeps (Rule.creation s call)
  aliasName : ∀ dotted, Keeps (aliasName dotted : Typer String)
  name : ∀ it, Keeps (Rule.name s call it)
  word : Keeps (Rule.word s call)
  text : Keeps (Rule.text s call)
  number : ∀ typeOf? form invalid, Keeps (Rule.number typeOf? form invalid)
  primary : Keeps (Rule.primary s call)
  attached : ∀ a, Keeps (Rule.attached s call a)
  container : ∀ left, Keeps (Rule.container s call left)

theorem disciplined_run (s : Setting) (budget : Nat) : Disciplined s (Rule.run s budget) := by
  have hcall : Rule.FollowCalls scopeCourse (Rule.run s budget) := Rule.follows_run scopeCourse s budget
  -- Each field is the lemma of its rule, at the course that keeps scopes and depth.
  exact {
    body := fun r => keeps_of_follows (Rule.follows_body hcall r)
    nested := fun _ => keeps_nested
    argument := keeps_of_follows (Rule.follows_argument hcall)
    arguments := keeps_of_follows (Rule.follows_arguments hcall)
    argumentList := keeps_of_follows (Rule.follows_argumentList hcall)
    sequenceBody := fun element => keeps_of_follows (Rule.follows_sequenceBody hcall element)
    sequenceCall := fun o element name => keeps_of_follows (Rule.follows_sequenceCall hcall o element name)
    methodCall := fun owner methods name position =>
      keeps_of_follows (Rule.follows_methodCall hcall owner methods name position)
    memberAccess := fun owner binding => keeps_of_follows (Rule.follows_memberAccess hcall owner binding)
    elementAccess := fun owner => keeps_of_follows (Rule.follows_elementAccess hcall owner)
    typeName := keeps_of_follows fun _ => Rule.follows_typeName trivial
    typeAccess := fun t position => keeps_of_follows (Rule.follows_typeAccess hcall t position)
    hasMember := fun t name => keeps_of_follows (Rule.follows_hasMember t name)
    choice := keeps_of_follows fun _ => Rule.follows_choice hcall trivial
    nullPropagation := keeps_of_follows fun _ => Rule.follows_nullPropagation hcall trivial
    creation := keeps_of_follows fun _ => Rule.follows_creation hcall trivial trivial
    aliasName := fun dotted => keeps_of_follows (Course.follows_aliasName dotted)
    name := fun it => keeps_of_follows fun _ => Rule.follows_name hcall it trivial
    word := keeps_of_follows fun _ => Rule.follows_word hcall trivial
    text := keeps_of_follows fun _ => Rule.follows_text hcall trivial
    number := fun typeOf? form invalid =>
      keeps_of_follows fun _ => Rule.follows_number typeOf? form invalid fun _ _ => trivial
    primary := keeps_of_follows (Rule.follows_primary hcall)
    attached := fun a => keeps_of_follows (Rule.follows_attached hcall a)
    container := fun left => keeps_of_follows fun _ => Rule.follows_container hcall left trivial }

/-! ## §4. The walk of a text. -/

/-- What is right about the scopes at some moment. -/
structure ScopesInOrder (s : Setting) (w : ScopedWalk) : Prop where
  /-- The outermost scope is that of the context. -/
  context : (s.stack w.held)[0]?.map Scope.it = some s.context
  /-- `it` is that of the innermost scope. -/
  it : (s.stack w.held)[(s.stack w.held).length - 1]?.map Scope.it = some (s.it w.held)
  /-- `parent` is that of the scope around it, if there is one. -/
  parent : 2 ≤ (s.stack w.held).length →
    (s.stack w.held)[(s.stack w.held).length - 2]?.map Scope.it = some (s.it w.held.tail)
  /-- A name is that of the innermost scope that gives it. -/
  named : ∀ word, (s.stack w.held).reverse.find? (fun scope => scope.parameter == some word) =
    w.held.find? fun scope => scope.parameter == some word
  room : (s.stack w.held).length ≤ Limits.scopes
  depth : w.depth ≤ Limits.nesting

theorem scopesInOrder_of_inBounds (s : Setting) {w : ScopedWalk} (h : InBounds w) : ScopesInOrder s w where
  context := rfl
  it := last_stack s w.held
  parent := last_but_one_stack s w.held
  named := find?_stack s w.held
  room := length_stack s w.held ▸ h.1
  depth := h.2

/-- **The discipline of the scopes.**  Every rule, and every part of one, leaves the scopes and the
depth as they were, whether it succeeds or fails.  So a word means after a sequence operator what it
would mean in its place.  At every moment of the walk of a text there is the scope of the context,
`it` and `parent` are found among the scopes, and scopes and depth are within their limits. -/
theorem scope_discipline (s : Setting) :
    (∀ budget, Disciplined s (Rule.run s budget)) ∧
    (∀ budget o element name w c,
      (Rule.word s (Rule.run s budget)).run
          (((Rule.sequenceCall s (Rule.run s budget) o element name).run w).walk.moved c) =
        (Rule.word s (Rule.run s budget)).run (w.moved c)) ∧
    ∀ text c v, Cursor.open? text = .ok c →
      (Rule.run s Rule.budget .conditional).passes ⟨c, 0, []⟩ v → ScopesInOrder s v := by
  refine ⟨disciplined_run s, ?_, ?_⟩
  · intro budget o element name w c
    rw [(disciplined_run s budget).sequenceCall o element name w]
  · intro text c v _ hv
    have hstart : InBounds ⟨c, 0, []⟩ := ⟨by simp [Limits.scopes], Nat.zero_le _⟩
    have hrun := Rule.follows_run scopeCourse s Rule.budget .conditional ⟨c, 0, []⟩
    exact scopesInOrder_of_inBounds s (hrun.along v hv hstart)

/-- A setting in which `it` is a sequence of texts. -/
def ofTexts : Setting := ⟨.empty, {}, (Operand.predefined Known.string).type.array⟩

/-- The walk at the start of the body in `Any(x => x.Length > 1)`. -/
def inBody : ScopedWalk :=
  ⟨⟨22, 10, ".Length > 1)".toList, ⟨.identifier, "x", 9⟩⟩, 2,
    [⟨(Operand.predefined Known.string).type, some "x"⟩]⟩

theorem passes_inBody : (Rule.run ofTexts Rule.budget .conditional).passes
    ⟨⟨22, 3, "(x => x.Length > 1)".toList, ⟨.identifier, "Any", 0⟩⟩, 0, []⟩ inBody := by
  -- Down the rules to the word.
  refine .inr (.inl (.inr ⟨_, _, rfl, ?_⟩))
  iterate 11 refine .inl ?_
  refine .inr (.inl ?_)
  iterate 2 refine .inr ⟨_, _, rfl, ?_⟩
  refine .inl ?_
  -- The word is a member of the context, and its bracket is open.
  iterate 13 refine .inr ⟨_, _, rfl, ?_⟩
  -- Past the name of the element.
  refine .inl (.inl ?_)
  iterate 2 refine .inr ⟨_, _, rfl, ?_⟩
  exact .inr (.inl (.inl (by rfl)))

/-- In the body there are two scopes, and `parent` is the sequence. -/
theorem scope_discipline_of_body :
    ∃ c, Cursor.open? "Any(x => x.Length > 1)".toList = .ok c ∧
      (Rule.run ofTexts Rule.budget .conditional).passes ⟨c, 0, []⟩ inBody ∧
      ScopesInOrder ofTexts inBody ∧ (ofTexts.stack inBody.held).length = 2 := by
  have hopen : Cursor.open? "Any(x => x.Length > 1)".toList =
      .ok ⟨22, 3, "(x => x.Length > 1)".toList, ⟨.identifier, "Any", 0⟩⟩ := rfl
  exact ⟨_, hopen, passes_inBody, (scope_discipline ofTexts).2.2 _ _ _ hopen passes_inBody, rfl⟩

end TypeAhead.Typing
