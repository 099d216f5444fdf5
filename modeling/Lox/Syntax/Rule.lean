import Lox.Fault

/-!
# Rules over a stream of tokens

A grammar is made of rules. A rule reads tokens from a stream and gives a value, or fails; either
way it leaves the stream where it stopped, which is what recovery goes on from. A rule never gives a
token back (`Rule.shrinks`), so reading in a loop comes to an end.

* `TokenStream`: tokens with a reading position, and how many nested rules are open.
* `Rule`: the rules, with their sequencing. A rule also says which streams it goes through on its
  way (`Rule.Visits`), which its outcome alone does not tell.
* `Rule.advance`, `Rule.check`, `Rule.consume`: reading, looking and asking for a token.
* `Rule.nested`: a rule one level deeper.
* `Rule.chain`: a loop that takes operators as long as there are any.
-/

namespace Lox

/-- Tokens with a reading position. Reading stops at the first end mark. -/
structure TokenStream where
  /-- The tokens read, the latest first. -/
  passed : List PlacedToken := []
  /-- The tokens not read yet. -/
  rest : List PlacedToken
  /-- The number of nested rules that are open. -/
  depth : Nat := 0
  deriving Repr

namespace TokenStream

/-- A stream at the start of a list of tokens. White space is left out. -/
def ofTokens (tokens : List PlacedToken) : TokenStream :=
  { rest := tokens.filter (fun t => t.kind != .whitespace) }

/-- The number of tokens read. -/
def index (s : TokenStream) : Nat := s.passed.length

/-- The span of the latest token read. -/
def previousSpan (s : TokenStream) : Option Span := s.passed.head?.bind PlacedToken.span

end TokenStream

/-- How a rule ended, and where. -/
inductive Outcome (α : Type) where
  | done (value : α) (stream : TokenStream)
  | failed (why : Failure) (stream : TokenStream)

namespace Outcome

variable {α : Type}

/-- Where the rule stopped. -/
def stream : Outcome α → TokenStream
  | done _ s => s
  | failed _ s => s

/-- The same end with another stream. -/
def mapStream (f : TokenStream → TokenStream) : Outcome α → Outcome α
  | done a s => done a (f s)
  | failed why s => failed why (f s)

end Outcome

/-- A rule of the grammar. -/
structure Rule (α : Type) where
  run : TokenStream → Outcome α
  /-- Run on the first stream, the rule goes through the second one: reading or nesting leads
  there. -/
  Visits : TokenStream → TokenStream → Prop
  /-- A rule never gives a token back. -/
  shrinks : ∀ s, (run s).stream.rest.length ≤ s.rest.length

namespace Rule

variable {α β : Type}

/-- Gives a value and reads nothing. -/
protected def pure (a : α) : Rule α where
  run s := .done a s
  Visits _ _ := False
  shrinks _ := Nat.le_refl _

/-- One rule after another. -/
protected def bind (r : Rule α) (f : α → Rule β) : Rule β where
  run s :=
    match r.run s with
    | .done a s' => (f a).run s'
    | .failed why s' => .failed why s'
  Visits s t := r.Visits s t ∨ ∃ a s', r.run s = .done a s' ∧ (f a).Visits s' t
  shrinks s := by
    have h := r.shrinks s
    split
    · rename_i a s' e
      rw [e] at h
      exact Nat.le_trans ((f a).shrinks s') h
    · rename_i why s' e
      rw [e] at h
      exact h

instance : Monad Rule where
  pure := Rule.pure
  bind := Rule.bind

@[simp] theorem run_pure (a : α) (s : TokenStream) : (pure a : Rule α).run s = .done a s := rfl

theorem run_bind (r : Rule α) (f : α → Rule β) (s : TokenStream) :
    (r >>= f).run s = match r.run s with
      | .done a s' => (f a).run s'
      | .failed why s' => .failed why s' := rfl

/-- Builds the rule only when it runs. It is the rule itself. -/
def delay (r : Unit → Rule α) : Rule α where
  run s := (r ()).run s
  Visits := (r ()).Visits
  shrinks s := (r ()).shrinks s

/-! ## Failing -/

/-- Fails. -/
def fail (why : Failure) : Rule α where
  run s := .failed why s
  Visits _ _ := False
  shrinks _ := Nat.le_refl _

/-- Fails with a report to the user. -/
def report (cause : Cause) (span : Option Span) : Rule α := fail (.diagnostic ⟨cause, span⟩)

/-! ## Looking at the stream -/

/-- The stream itself. -/
def stream : Rule TokenStream where
  run s := .done s s
  Visits _ _ := False
  shrinks _ := Nat.le_refl _

/-- The token that stands next, the end mark included. -/
def head : Rule PlacedToken where
  run s :=
    match s.rest with
    | [] => .failed (.fault .missingEnd) s
    | t :: _ => .done t s
  Visits _ _ := False
  shrinks s := by split <;> exact Nat.le_refl _

/-- The token that stands next, none before the end mark. -/
def peek : Rule (Option PlacedToken) := do
  let t ← head
  pure (if t.isEnd then none else some t)

/-- The latest token read. -/
def previous : Rule PlacedToken where
  run s :=
    match s.passed with
    | [] => .failed (.fault .noPrevious) s
    | t :: _ => .done t s
  Visits _ _ := False
  shrinks s := by split <;> exact Nat.le_refl _

/-- The token that stands next, if it is of a wanted kind. -/
def check (wanted : TokenKind → Bool) : Rule (Option PlacedToken) := do
  let t ← peek
  pure (t.filter (fun t => wanted t.kind))

/-! ## Reading -/

/-- Reads a token; at the end mark it reads none. -/
def advance : Rule (Option PlacedToken) where
  run s :=
    match s.rest with
    | [] => .failed (.fault .missingEnd) s
    | t :: ts =>
      if t.isEnd then .done none s
      else .done (some t) { s with passed := t :: s.passed, rest := ts }
  Visits s s' := ∃ t ts, s.rest = t :: ts ∧ t.isEnd = false ∧
    s' = { s with passed := t :: s.passed, rest := ts }
  shrinks s := by
    split
    · exact Nat.le_refl _
    · rename_i t ts e
      split <;> simp_all [Outcome.stream]

/-- Reads a token and hands it to `read`, which refuses it by giving nothing. -/
def consumeWith (wanted : TokenKind) (read : Token → Option α) : Rule (α × PlacedToken) := do
  match ← advance with
  | none => report (.missingToken wanted) (← head).span
  | some t =>
    match read t.token with
    | some a => pure (a, t)
    | none => report (.wrongToken wanted t.token) t.span

/-- Reads a token of the wanted kind. Any other token is read too, and reported. -/
def consume (wanted : TokenKind) : Rule PlacedToken := do
  let (_, t) ← consumeWith wanted (fun t => if t.kind = wanted then some () else none)
  pure t

/-- Reads a name. -/
def consumeName : Rule String := do
  let (name, _) ← consumeWith .identifier (fun
    | .identifier name => some name
    | _ => none)
  pure name

/-- Where a token stands that a node starts at. -/
def startOf (t : PlacedToken) : Rule Span :=
  match t.span with
  | some s => pure s
  | none => fail (.fault .unplacedStart)

/-- Where a token stands that a node ends at. -/
def stopOf (t : PlacedToken) : Rule Span :=
  match t.span with
  | some s => pure s
  | none => fail (.fault .unplacedStop)

/-- Where an expression stands. -/
def spanOf (e : Expr) : Rule Span :=
  match e.span with
  | some s => pure s
  | none => fail (.fault (.unplacedNode e))

/-! ## Nesting -/

/-- The rule, one level deeper. However it ends, the level is left again. -/
def nested (r : Rule α) : Rule α where
  run s := (r.run { s with depth := s.depth + 1 }).mapStream fun s =>
    { s with depth := s.depth - 1 }
  Visits s t := t = { s with depth := s.depth + 1 } ∨
    r.Visits { s with depth := s.depth + 1 } t ∨
    t = { (r.run { s with depth := s.depth + 1 }).stream with
      depth := (r.run { s with depth := s.depth + 1 }).stream.depth - 1 }
  shrinks s := by
    have h := r.shrinks { s with depth := s.depth + 1 }
    revert h
    cases r.run { s with depth := s.depth + 1 } <;> exact id

/-! ## Loops -/

/-- The mark that a token is, if it is one of these. -/
def markIn (operators : List Mark) : Token → Option Mark
  | .mark m => if m ∈ operators then some m else none
  | _ => none

/-- The loop of `chain`. -/
def chainFrom (operators : List Mark) (extend : Expr → Mark → Rule Expr) (left : Expr)
    (s : TokenStream) : Outcome Expr :=
  match _next : s.rest with
  | [] => .failed (.fault .missingEnd) s
  | t :: ts =>
    match markIn operators t.token with
    | none => .done left s
    | some m =>
      match _ran : (extend left m).run { s with passed := t :: s.passed, rest := ts } with
      | .failed why s' => .failed why s'
      | .done longer s' => chainFrom operators extend longer s'
termination_by s.rest.length
decreasing_by
  have h := (extend left m).shrinks { s with passed := t :: s.passed, rest := ts }
  rw [_ran] at h
  simp only [Outcome.stream] at h
  simp only [_next, List.length_cons]
  omega

/-- One round of the loop. -/
theorem chainFrom_eq (operators : List Mark) (extend : Expr → Mark → Rule Expr) (left : Expr)
    (s : TokenStream) :
    chainFrom operators extend left s = match s.rest with
      | [] => .failed (.fault .missingEnd) s
      | t :: ts =>
        match markIn operators t.token with
        | none => .done left s
        | some m =>
          match (extend left m).run { s with passed := t :: s.passed, rest := ts } with
          | .failed why s' => .failed why s'
          | .done longer s' => chainFrom operators extend longer s' := by
  rw [chainFrom]
  split
  · rename_i h; rw [h]
  · rename_i t ts h
    simp only [h]
    split
    · rfl
    · split <;> rename_i e <;> rw [e]

theorem chainFrom_shrinks (operators : List Mark) (extend : Expr → Mark → Rule Expr) (left : Expr)
    (s : TokenStream) :
    (chainFrom operators extend left s).stream.rest.length ≤ s.rest.length := by
  induction left, s using chainFrom.induct operators extend with
  | case1 left s hs => simp [chainFrom_eq, hs, Outcome.stream]
  | case2 left s t ts hs hm => simp [chainFrom_eq, hs, hm, Outcome.stream]
  | case3 left s t ts hs m hm why s' e =>
    have h := (extend left m).shrinks { s with passed := t :: s.passed, rest := ts }
    rw [e] at h
    simp only [Outcome.stream] at h
    simp only [chainFrom_eq, hs, hm, e, Outcome.stream, List.length_cons]
    omega
  | case4 left s t ts hs m hm longer s' e ih =>
    have h := (extend left m).shrinks { s with passed := t :: s.passed, rest := ts }
    rw [e] at h
    simp only [Outcome.stream] at h
    rw [chainFrom_eq]
    simp only [hs, hm, e, List.length_cons]
    omega

/-- The streams that the loop of `chain` goes through. -/
inductive ChainVisits (operators : List Mark) (extend : Expr → Mark → Rule Expr) :
    Expr → TokenStream → TokenStream → Prop where
  /-- Behind the operator. -/
  | operator {left : Expr} {s : TokenStream} {t : PlacedToken} {ts : List PlacedToken} {m : Mark} :
    s.rest = t :: ts → markIn operators t.token = some m →
    ChainVisits operators extend left s { s with passed := t :: s.passed, rest := ts }
  /-- In the round that the operator starts. -/
  | round {left : Expr} {s v : TokenStream} {t : PlacedToken} {ts : List PlacedToken} {m : Mark} :
    s.rest = t :: ts → markIn operators t.token = some m →
    (extend left m).Visits { s with passed := t :: s.passed, rest := ts } v →
    ChainVisits operators extend left s v
  /-- In a later round. -/
  | later {left longer : Expr} {s s' v : TokenStream} {t : PlacedToken} {ts : List PlacedToken}
      {m : Mark} :
    s.rest = t :: ts → markIn operators t.token = some m →
    (extend left m).run { s with passed := t :: s.passed, rest := ts } = .done longer s' →
    ChainVisits operators extend longer s' v → ChainVisits operators extend left s v

/-- As long as one of the operators stands next, reads it and lets `extend` go on from what was
built so far. -/
def chain (operators : List Mark) (extend : Expr → Mark → Rule Expr) (left : Expr) : Rule Expr where
  run := chainFrom operators extend left
  Visits := ChainVisits operators extend left
  shrinks := chainFrom_shrinks operators extend left

end Rule

end Lox
