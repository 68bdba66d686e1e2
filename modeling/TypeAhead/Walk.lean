/-
  TypeAhead.Walk — WALKS OF A GRAMMAR OVER TOKENS.

  A grammar is walked rule by rule.  A walk stands on a token, knows how deep it
  is nested, and holds what its grammar keeps track of: the locator of fragments
  holds the starts of open operands, the typing of expressions its scopes.

  A failed rule leaves the walk as it was when it failed, so what is held then
  can still be used.  Faults of the text are met where the walk meets them.
-/
import TypeAhead.Token.Cursor
import TypeAhead.Literal.Quoted

namespace TypeAhead

/-! ## §1. Walks. -/

/-- A walk, with what its grammar holds. -/
structure Walk (σ : Type) where
  /-- The place among the tokens. -/
  cursor : Cursor
  /-- How many nested rules are under way. -/
  depth : Nat
  /-- What the grammar keeps track of. -/
  held : σ

namespace Walk

variable {σ α : Type}

/-- What comes of a walk: it succeeds or fails; either way the walk goes on to exist. -/
abbrev Outcome (σ α : Type) := EStateM.Result Failure (Walk σ) α

/-- The walk that an outcome leaves. -/
def Outcome.walk : Outcome σ α → Walk σ
  | .ok _ w => w
  | .error _ w => w

/-- The walk with one more nested rule under way. -/
def deeper (w : Walk σ) : Walk σ := { w with depth := w.depth + 1 }

/-- The walk with one nested rule less under way. -/
def shallower (w : Walk σ) : Walk σ := { w with depth := w.depth - 1 }

end Walk

/-- A rule, as it moves a walk.  What it passes through is a proposition, which is there to be
reasoned about and costs nothing where a rule is run. -/
structure Walker (σ α : Type) where
  /-- What comes of a walk. -/
  run : Walk σ → Walk.Outcome σ α
  /-- `passes w v`: at some moment between its start at `w` and its end the walk is `v`. -/
  passes : Walk σ → Walk σ → Prop

namespace Walker

variable {σ α β : Type}

/-- A single move: nothing lies between the walk before it and the walk after it. -/
@[inline] def move (step : Walk σ → Walk.Outcome σ α) : Walker σ α :=
  ⟨step, fun w v => v = w ∨ v = (step w).walk⟩

/-- One rule after the other, unless the first one fails. -/
@[always_inline, inline] protected def bind (x : Walker σ α) (f : α → Walker σ β) :
    Walker σ β where
  run w :=
    match x.run w with
    | .ok a w => (f a).run w
    | .error failure w => .error failure w
  passes w v := x.passes w v ∨ ∃ a u, x.run w = .ok a u ∧ (f a).passes u v

@[always_inline] instance : Monad (Walker σ) where
  pure a := move fun w => .ok a w
  bind := Walker.bind

/-! ## §2. The current token. -/

/-- Looks at the place among the tokens. -/
@[inline] def look (f : Cursor → α) : Walker σ α := move fun w => .ok (f w.cursor) w

/-- The place among the tokens. -/
def cursor : Walker σ Cursor := look id

/-- The current token. -/
def current : Walker σ Token := look Cursor.current

/-- The kind of the current token. -/
def kind : Walker σ TokenKind := look fun c => c.current.kind

/-- The offset of the current token. -/
def position : Walker σ Nat := look fun c => c.current.start

/-- Whether the current token is the given word, whatever its case. -/
def isWord (word : String) : Walker σ Bool := look fun c => c.isWord word

/-- Whether the current token is of one of the kinds. -/
def isAny (kinds : List TokenKind) : Walker σ Bool := look fun c => c.isAny kinds

/-! ## §3. Failing. -/

/-- Fails where the walk stands. -/
@[inline] def stop (f : Cursor → Failure) : Walker σ α := move fun w => .error (f w.cursor) w

/-- Fails at an offset. -/
def failAt (position : Nat) (cause : Cause) : Walker σ α := stop fun _ => .fault ⟨cause, position⟩

/-- Fails at the current token. -/
def fail (cause : Cause) : Walker σ α := stop fun c => .fault (c.fault cause)

/-- Refuses the null propagation on which the walk stands. -/
def refuse : Walker σ α := stop fun c => .propagation c.current.start

/-- Fails with the fault of something read from the text. -/
def ofExcept : Except Fault α → Walker σ α
  | .ok a => pure a
  | .error fault => stop fun _ => .fault fault

/-- Fails unless `test` accepts the current token. -/
def demand (test : Cursor → Bool) (cause : Cause) : Walker σ Unit := do
  if ← look test then pure () else fail cause

/-- Fails unless the current token is of the kind. -/
def require (kind : TokenKind) (cause : Cause) : Walker σ Unit :=
  demand (fun c => c.isKind kind) cause

/-! ## §4. Moving. -/

/-- Goes to the next token. -/
def advance : Walker σ Unit :=
  move fun w => match w.cursor.next with
    | .ok next => .ok () { w with cursor := next }
    | .error fault => .error (.fault fault) w

/-- Goes past a token of the kind, which has to be the current one. -/
def expect (kind : TokenKind) (cause : Cause) : Walker σ Unit := do
  require kind cause
  advance

/-- Changes the place among the tokens. -/
@[inline] def edit (f : Cursor → Cursor) : Walker σ Unit :=
  move fun w => .ok () { w with cursor := f w.cursor }

/-- Gives the current token another text. -/
def reword (text : String) : Walker σ Unit := edit fun c => c.reword text

/-- Puts another token in the place of the current one. -/
def replace (token : Token) : Walker σ Unit := edit fun c => { c with current := token }

/-- Goes to another place among the tokens. -/
def jump (cursor : Cursor) : Walker σ Unit := edit fun _ => cursor

/-- Changes what the grammar keeps track of. -/
@[inline] def hold (f : Cursor → σ → σ) : Walker σ Unit :=
  move fun w => .ok () { w with held := f w.cursor w.held }

/-! ## §5. Choosing, nesting and repeating. -/

/-- Runs a rule if `test` accepts the current token. -/
def onlyIf (test : Cursor → Bool) (rule : Walker σ Unit) : Walker σ Unit := do
  if ← look test then rule else pure ()

/-- Runs a rule between two changes of the walk; the second one is made however the rule ends. -/
@[inline] def between (enter leave : Walk σ → Walk σ) (rule : Walker σ α) : Walker σ α where
  run w :=
    match rule.run (enter w) with
    | .ok a w => .ok a (leave w)
    | .error failure w => .error failure (leave w)
  passes w v := v = w ∨ rule.passes (enter w) v ∨ v = leave (rule.run (enter w)).walk

/-- Runs a rule one level deeper; the depth is restored however the rule ends. -/
def nested (rule : Walker σ α) : Walker σ α where
  run w :=
    if Limits.nesting ≤ w.depth then (fail .tooDeep).run w
    else (between Walk.deeper Walk.shallower rule).run w
  passes w v :=
    if Limits.nesting ≤ w.depth then v = w
    else (between Walk.deeper Walk.shallower rule).passes w v

/-- Repeats `step` as long as it asks for it, at most `budget` times. -/
def repeatUpTo (step : α → Walker σ (Bool × α)) : Nat → α → Walker σ α
  | 0, _ => fail .tooDeep
  | budget + 1, a => do
    let (again, a) ← step a
    if again then repeatUpTo step budget a else pure a

/-- Repeats `step` as long as it asks for it.  Each step reads a token, so that there are never
more steps than the text has bytes. -/
def repeatStep (step : α → Walker σ (Bool × α)) (a : α) : Walker σ α := do
  repeatUpTo step ((← cursor).size + 2) a

/-- Repeats `step` as long as the walk stands on a token that `test` accepts. -/
def repeatWhile (test : Cursor → Bool) (step : Walker σ Unit) : Walker σ Unit :=
  repeatStep (fun _ => do
    if ← look test then
      step
      pure (true, ())
    else pure (false, ())) ()

/-! ## §6. Names. -/

/-- The words that start an `out` argument. -/
def outWords : List String := ["out", "$out"]

/-- Goes past `out _`, if the walk stands on `out`, and says whether it did. -/
def discardedOut : Walker σ Bool := do
  if ← look fun c => c.isOneOf outWords [] then
    advance
    demand (fun c => c.current.text == "_") .outWithoutDiscard
    advance
    pure true
  else pure false

/-- One more dot or word of a dotted name. -/
def dottedStep (name : String) : Walker σ (Bool × String) := do
  let token ← current
  if token.kind = .dot || token.kind = .identifier then
    advance
    pure (true, name ++ token.text)
  else pure (false, name)

/-- The dots and words from the current token on, put together. -/
def dottedName : Walker σ String := repeatStep dottedStep ""

/-- The name of the alias after `as`, which goes past it; with `dotted` aliases, dots and
words are taken as long as they come. -/
def aliasName (dotted : Bool) : Walker σ String := do
  require .identifier .identifierExpected
  if dotted then plainName <$> dottedName
  else
    let name := plainName (← current).text
    advance
    pure name

end Walker

end TypeAhead
