import Lox.Proofs.Syntax.Nesting

/-!
# What the guard counts

The rules of the grammar recurse on the room that is left, and refuse to open a level where there is
no room. A parser may as well count the levels that it has opened, and refuse one more where there
are more of them than the limit allows. Both refuse the same levels, and read the same programs.

* `Rule.guarded`: a level that is refused by the number of levels that are open.
* `Grammar.countedUnary`, `Grammar.countedExpression`: the rules with such guards.
* `Rule.AgreesAt`: rules that do the same wherever so many levels are open, with one lemma for each
  way to build a rule.
* `Grammar.agreesAt_unary`, `Grammar.agreesAt_expression`: room and open levels add up to the limit.
* `parse_eq_counted`: so whole programs are read alike.
-/

namespace Lox

namespace Rule

variable {α β : Type} {d : Nat} {r r' : Rule α} {f f' : α → Rule β}

/-- The rule, one level deeper. With more levels open than the limit allows, this is reported
instead, and blamed on what stands there. -/
def guarded (limit : Int) (blame : TokenStream → Option Span) (r : Rule α) : Rule α :=
  nested do
    let s ← stream
    if limit < s.depth then report (.nesting limit) (blame s) else r

/-- With so many levels open, the rules do the same, and leave as many open. -/
structure AgreesAt (d : Nat) (r r' : Rule α) : Prop where
  run_eq : ∀ s, s.depth = d → r.run s = r'.run s
  balanced : ∀ s, s.depth = d → (r.run s).stream.depth = d

theorem Gauged.agreesAt (h : r.Gauged 0) : r.AgreesAt d r :=
  ⟨fun _ _ => rfl, fun s hs => (h.balanced s).trans hs⟩

theorem AgreesAt.bind (hr : r.AgreesAt d r') (hf : ∀ a, (f a).AgreesAt d (f' a)) :
    (r >>= f).AgreesAt d (r' >>= f') where
  run_eq s hs := by
    have same := hr.run_eq s hs
    have balanced := hr.balanced s hs
    rw [run_bind, run_bind, ← same]
    cases e : r.run s with
    | done a s' =>
      rw [e] at balanced
      exact (hf a).run_eq s' balanced
    | failed why s' => rfl
  balanced s hs := by
    have balanced := hr.balanced s hs
    rw [run_bind]
    cases e : r.run s with
    | done a s' =>
      rw [e] at balanced
      exact (hf a).balanced s' balanced
    | failed why s' =>
      rw [e] at balanced
      exact balanced

theorem AgreesAt.nested (h : r.AgreesAt (d + 1) r') : (nested r).AgreesAt d (nested r') where
  run_eq s hs := by
    have same := h.run_eq { s with depth := s.depth + 1 } (congrArg (· + 1) hs)
    simp only [Rule.nested, same]
  balanced s hs := by
    have balanced := h.balanced { s with depth := s.depth + 1 } (congrArg (· + 1) hs)
    simp only [Rule.nested]
    cases e : r.run { s with depth := s.depth + 1 } with
    | done a s' | failed why s' =>
      rw [e] at balanced
      exact congrArg (· - 1) balanced

theorem AgreesAt.chain {operators : List Mark} {extend extend' : Expr → Mark → Rule Expr}
    (h : ∀ e m, (extend e m).AgreesAt d (extend' e m)) (left : Expr) :
    (chain operators extend left).AgreesAt d (chain operators extend' left) := by
  have both (s : TokenStream) (hs : s.depth = d) :
      chainFrom operators extend left s = chainFrom operators extend' left s ∧
        (chainFrom operators extend left s).stream.depth = d := by
    induction left, s using chainFrom.induct operators extend with
    | case1 left s hr => simp [chainFrom_eq, hr, hs, Outcome.stream]
    | case2 left s t ts hr hm => simp [chainFrom_eq, hr, hm, hs, Outcome.stream]
    | case3 left s t ts hr m hm why s' e =>
      have same := (h left m).run_eq { s with passed := t :: s.passed, rest := ts } hs
      have balanced := (h left m).balanced { s with passed := t :: s.passed, rest := ts } hs
      rw [e] at same balanced
      simpa [chainFrom_eq, hr, hm, e, ← same, Outcome.stream] using balanced
    | case4 left s t ts hr m hm longer s' e ih =>
      have same := (h left m).run_eq { s with passed := t :: s.passed, rest := ts } hs
      have balanced := (h left m).balanced { s with passed := t :: s.passed, rest := ts } hs
      rw [e] at same balanced
      rw [chainFrom_eq, chainFrom_eq operators extend']
      simpa only [hr, hm, e, ← same] using ih balanced
  exact ⟨fun s hs => (both s hs).1, fun s hs => (both s hs).2⟩

/-- With room for the level, the guard opens it. -/
theorem AgreesAt.guarded {limit : Int} (room : d < limit.toNat)
    (blame : TokenStream → Option Span) (h : r.AgreesAt (d + 1) r') :
    (guarded limit blame r).AgreesAt d (Rule.nested r') := by
  refine AgreesAt.nested ⟨fun s hs => ?_, fun s hs => ?_⟩
  all_goals
    have fits : ¬ limit < s.depth := by omega
    simp only [run_bind, stream, if_neg fits]
  · exact h.run_eq s hs
  · exact h.balanced s hs

/-- Without room for the level, the guard refuses it. -/
theorem agreesAt_refused {limit : Int} (full : limit.toNat ≤ d) (r : Rule α)
    {blame : TokenStream → Option Span}
    (h : ∀ s, r'.run s = .failed (.diagnostic ⟨.nesting limit, blame s⟩) s) :
    (Rule.guarded limit blame r).AgreesAt d (Rule.nested r') := by
  refine AgreesAt.nested ⟨fun s hs => ?_, fun s hs => ?_⟩
  all_goals
    have deeper : limit < s.depth := by omega
    simp only [run_bind, stream, if_pos deeper]
  · exact (h s).symm
  · exact hs

end Rule

/-! ## The grammar -/

namespace Grammar

open Rule

/-- An expression, given the unary rule, with a guard that counts. -/
def countedExpression (limit : Int) (unary : Rule Expr) : Rule Expr :=
  guarded limit TokenStream.previousSpan (ternary unary)

/-- A unary expression, given the unary rule again, with guards that count. -/
def countedUnaryOver (limit : Int) (unary : Rule Expr) : Rule Expr := do
  match ← check (fun k => unaryOperators.any (fun m => k == .mark m)) with
  | some ⟨.mark operator, span⟩ =>
    let _ ← advance
    let right ← guarded limit (fun _ => span) unary
    let span := (← startOf ⟨.mark operator, span⟩).join (← spanOf right)
    pure (.unary (.mark operator) right (some span))
  | _ => primary (countedExpression limit unary)

/-- A unary expression, with guards that count. The guards end the recursion before it runs out of
steps. -/
def countedUnary (limit : Int) : Nat → Rule Expr
  | 0 => fail (.fault .missingEnd)
  | steps + 1 => countedUnaryOver limit (countedUnary limit steps)

section

variable {d : Nat} {r r' : Rule Expr}

theorem agreesAt_leftAssociative {operators : List Mark} (h : r.AgreesAt d r') :
    (leftAssociative operators r).AgreesAt d (leftAssociative operators r') := by
  have g := gauged 0
  refine h.bind fun first => AgreesAt.chain (fun left m => h.bind fun right => ?_) first
  exact Gauged.agreesAt <| g.bind (g.spanOf _) fun _ => g.bind (g.spanOf _) fun _ => g.pure _

theorem agreesAt_equality (h : r.AgreesAt d r') : (equality r).AgreesAt d (equality r') :=
  agreesAt_leftAssociative <| agreesAt_leftAssociative <| agreesAt_leftAssociative <|
    agreesAt_leftAssociative h

theorem agreesAt_ternary (h : r.AgreesAt d r') : (ternary r).AgreesAt d (ternary r') := by
  have g := gauged 0
  have operand := agreesAt_equality h
  refine operand.bind fun first => AgreesAt.chain (fun condition m => ?_) first
  refine operand.bind fun _ => (g.consume _).agreesAt.bind fun _ => operand.bind fun _ => ?_
  exact Gauged.agreesAt <| g.bind (g.spanOf _) fun _ => g.bind (g.spanOf _) fun _ => g.pure _

theorem agreesAt_primary (h : r.AgreesAt d r') : (primary r).AgreesAt d (primary r') := by
  have g := gauged 0
  refine g.advance.agreesAt.bind fun o => ?_
  cases o with
  | none =>
    exact Gauged.agreesAt <| g.bind g.head fun _ => g.bind g.stream fun _ => g.fail trivial
  | some t =>
    dsimp only
    split
    iterate 6 exact (g.pure _).agreesAt
    · refine h.bind fun _ => Gauged.agreesAt ?_
      exact g.bind (g.consume _) fun _ => g.bind (g.startOf _) fun _ => g.bind (g.stopOf _) fun _ =>
        g.pure _
    · exact Gauged.agreesAt (g.fail trivial)

/-- The guard of an expression opens what there is room for. -/
theorem agreesAt_countedExpression {limit : Int} {room : Nat} (h : d + room = limit.toNat)
    (deeper : ∀ rest, room = rest + 1 → r.AgreesAt (d + 1) (unary limit rest)) :
    (countedExpression limit r).AgreesAt d (expression limit room) := by
  cases room with
  | zero => exact agreesAt_refused (by omega) _ fun _ => rfl
  | succ rest => exact (agreesAt_ternary (deeper rest rfl)).guarded (by omega) _

/-- A unary expression that counts does what one with room for so many levels does, if these and the
open ones add up to the limit. -/
theorem agreesAt_unary {limit : Int} {steps room : Nat} (h : d + room = limit.toNat)
    (more : room < steps) : (countedUnary limit steps).AgreesAt d (unary limit room) := by
  induction steps generalizing d room with
  | zero => omega
  | succ steps ih =>
    have g := gauged 0
    have deeper (rest : Nat) (hr : room = rest + 1) :
        (countedUnary limit steps).AgreesAt (d + 1) (unary limit rest) :=
      ih (by omega) (by omega)
    rw [unary_eq, countedUnary]
    refine (g.check _).agreesAt.bind fun o => ?_
    have plain := agreesAt_primary (agreesAt_countedExpression h deeper)
    obtain _ | ⟨token, span⟩ := o
    · exact plain
    cases token with
    | mark operator =>
      refine g.advance.agreesAt.bind fun _ => AgreesAt.bind ?_ fun _ => Gauged.agreesAt ?_
      · cases room with
        | zero => exact agreesAt_refused (by omega) _ fun _ => rfl
        | succ rest => exact (deeper rest rfl).guarded (by omega) _
      · exact g.bind (g.startOf _) fun _ => g.bind (g.spanOf _) fun _ => g.pure _
    | _ => exact plain

/-- An expression that counts does what one with room for so many levels does, if these and the open
ones add up to the limit. -/
theorem agreesAt_expression {limit : Int} {steps room : Nat} (h : d + room = limit.toNat)
    (more : room ≤ steps) :
    (countedExpression limit (countedUnary limit steps)).AgreesAt d (expression limit room) :=
  agreesAt_countedExpression h fun rest hr => agreesAt_unary (by omega) (by omega)

theorem agreesAt_variableDeclaration (h : r.AgreesAt d r') :
    (variableDeclaration r).AgreesAt d (variableDeclaration r') := by
  have g := gauged 0
  refine g.advance.agreesAt.bind fun o => ?_
  cases o with
  | none => exact Gauged.agreesAt <| g.bind g.head fun _ => g.fail trivial
  | some keyword =>
    refine g.consumeName.agreesAt.bind fun name => (g.check _).agreesAt.bind fun equal => ?_
    have finish (initial : Option Expr) : Rule.Gauged (do
        let stop ← consume (.mark .semicolon)
        let span := (← startOf keyword).join (← stopOf stop)
        pure (.declaration name initial (some span)) : Rule Stmt) 0 :=
      g.bind (g.consume _) fun _ => g.bind (g.startOf _) fun _ => g.bind (g.stopOf _) fun _ =>
        g.pure _
    cases equal with
    | none => exact (g.pure _).agreesAt.bind fun initial => (finish initial).agreesAt
    | some _ =>
      refine g.advance.agreesAt.bind fun _ => AgreesAt.bind ?_ fun i => (finish i).agreesAt
      exact h.bind fun _ => (g.pure _).agreesAt

theorem agreesAt_statement (h : r.AgreesAt d r') :
    (statement r).AgreesAt d (statement r') := by
  have g := gauged 0
  refine (g.check _).agreesAt.bind fun o => ?_
  cases o with
  | some keyword =>
    refine g.advance.agreesAt.bind fun _ => h.bind fun _ => Gauged.agreesAt ?_
    exact g.bind (g.consume _) fun _ => g.bind (g.startOf _) fun _ => g.bind (g.stopOf _) fun _ =>
      g.pure _
  | none =>
    refine h.bind fun _ => Gauged.agreesAt ?_
    exact g.bind (g.consume _) fun _ => g.bind (g.spanOf _) fun _ => g.bind (g.stopOf _) fun _ =>
      g.pure _

theorem agreesAt_declaration (h : r.AgreesAt d r') :
    (declaration r).AgreesAt d (declaration r') := by
  refine ((gauged 0).check _).agreesAt.bind fun o => ?_
  cases o with
  | some _ => exact agreesAt_variableDeclaration h
  | none => exact agreesAt_statement h

end

/-- A declaration, with guards that count. -/
def countedDeclaration (limit : Int) (steps : Nat) : Rule Stmt :=
  declaration (countedExpression limit (countedUnary limit steps))

theorem consumes_countedDeclaration (limit : Int) (steps : Nat) :
    (countedDeclaration limit steps).Consumes := consumes_declaration _

/-- With no level open, a declaration that counts does what one of the grammar does. -/
theorem agreesAt_topDeclaration {limit : Int} {steps : Nat} (more : limit.toNat ≤ steps) :
    (countedDeclaration limit steps).AgreesAt 0 (topDeclaration limit) :=
  agreesAt_declaration (agreesAt_expression (Nat.zero_add _) more)

end Grammar

/-! ## Whole programs -/

namespace TokenStream

open Grammar

/-- With no level open, the loop over declarations that count is the loop of the grammar. -/
theorem loop_countedDeclaration {limit : Int} {steps : Nat} (more : limit.toNat ≤ steps)
    {s : TokenStream} (hs : s.depth = 0) :
    s.loop (countedDeclaration limit steps) (consumes_countedDeclaration _ _) = s.items limit := by
  cases hr : s.rest with
  | nil => rw [loop_eq, items_eq, hr]
  | cons t rest =>
    cases ht : t.isEnd with
    | true =>
      rw [loop_eq, items_eq, hr]
      simp only [ht, if_true]
    | false =>
      rw [loop_eq_round ((agreesAt_topDeclaration more).run_eq s hs) hr ht, items_eq_round hr ht]
      cases hround : round limit s with
      | error f => rfl
      | ok next =>
        obtain ⟨item, s'⟩ := next
        have : s'.rest.length < s.rest.length := round_shrinks hr hround
        simp only [loop_countedDeclaration more ((round_depth hround).trans hs)]
termination_by s.rest.length

end TokenStream

/-- A parser that counts the levels it has opened, and refuses one where they are more than the
limit allows, reads the same statements and reports the same. -/
theorem parse_eq_counted {limit : Int} {steps : Nat} (more : limit.toNat ≤ steps)
    (tokens : List PlacedToken) : parse tokens limit =
      ((TokenStream.ofTokens tokens).loop (Grammar.countedDeclaration limit steps)
        (Grammar.consumes_countedDeclaration _ _)).map fun (items, _) => .ofItems items := by
  rw [TokenStream.loop_countedDeclaration more rfl, parse, TokenStream.program]
  cases (TokenStream.ofTokens tokens).items limit <;> rfl

end Lox
