import Lox.Proofs.Syntax.Completeness

/-!
# What the grammar inherits

The rules of the grammar are built from few others in few ways. A property of rules that those have
and that each of these ways keeps is one of every rule of the grammar. It may speak of how many
levels of nesting a rule has room for, and of the limit that it reports where there is no room.

* `Rule.Hereditary`: such a property.
* `Rule.Hereditary.ruleAt`, `Rule.Hereditary.overExpression`, `Rule.Hereditary.topDeclaration`: the
  rules of the grammar that have it.
-/

namespace Lox

/-- If too deep nesting is what is reported, then nesting beyond this limit. -/
def Failure.Names (limit : Int) : Failure → Prop
  | .diagnostic ⟨.nesting named, _⟩ => named = limit
  | _ => True

namespace Rule

/-- The property of rules with room for some levels is kept by each way to build a rule under the
limit. -/
structure Hereditary (limit : Int) (P : Nat → ∀ {α : Type}, Rule α → Prop) : Prop where
  pure {room : Nat} {α : Type} (a : α) : P room (Pure.pure a : Rule α)
  fail {room : Nat} {α : Type} {why : Failure} : why.Names limit → P room (Rule.fail why : Rule α)
  stream {room : Nat} : P room Rule.stream
  head {room : Nat} : P room Rule.head
  advance {room : Nat} : P room Rule.advance
  bind {room : Nat} {α β : Type} {r : Rule α} {f : α → Rule β} :
    P room r → (∀ a, P room (f a)) → P room (r >>= f)
  nested {room : Nat} {α : Type} {r : Rule α} : P room r → P (room + 1) (Rule.nested r)
  chain {room : Nat} {operators : List Mark} {extend : Expr → Mark → Rule Expr} (left : Expr) :
    .endOfFile ∉ operators → (∀ e m, P room (extend e m)) →
    P room (Rule.chain operators extend left)

namespace Hereditary

variable {limit : Int} {P : Nat → ∀ {α : Type}, Rule α → Prop} (h : Hereditary limit P) {room : Nat}

include h

theorem check (wanted : TokenKind → Bool) : P room (Rule.check wanted) :=
  h.bind (h.bind h.head fun _ => h.pure _) fun _ => h.pure _

theorem consumeWith (wanted : TokenKind) (read : Token → Option α) :
    P room (Rule.consumeWith wanted read) := by
  refine h.bind h.advance fun o => ?_
  cases o with
  | none => exact h.bind h.head fun _ => h.fail trivial
  | some t =>
    dsimp only
    split
    · exact h.pure _
    · exact h.fail trivial

theorem consume (wanted : TokenKind) : P room (Rule.consume wanted) :=
  h.bind (h.consumeWith wanted _) fun _ => h.pure _

theorem consumeName : P room Rule.consumeName := h.bind (h.consumeWith _ _) fun _ => h.pure _

theorem startOf (t : PlacedToken) : P room (Rule.startOf t) := by
  unfold Rule.startOf
  split
  · exact h.pure _
  · exact h.fail trivial

theorem stopOf (t : PlacedToken) : P room (Rule.stopOf t) := by
  unfold Rule.stopOf
  split
  · exact h.pure _
  · exact h.fail trivial

theorem spanOf (e : Expr) : P room (Rule.spanOf e) := by
  unfold Rule.spanOf
  split
  · exact h.pure _
  · exact h.fail trivial

/-! ## Expressions -/

variable {r : Rule Expr} {inner : Option (Rule Expr)}

theorem leftAssociative {operators : List Mark} (hend : .endOfFile ∉ operators)
    (hr : P room r) : P room (Grammar.leftAssociative operators r) :=
  h.bind hr fun left => h.chain left hend fun _ _ => h.bind hr fun _ =>
    h.bind (h.spanOf _) fun _ => h.bind (h.spanOf _) fun _ => h.pure _

theorem equality (hr : P room r) : P room (Grammar.equality r) :=
  h.leftAssociative (by decide) <| h.leftAssociative (by decide) <|
    h.leftAssociative (by decide) <| h.leftAssociative (by decide) hr

theorem ternary (hr : P room r) : P room (Grammar.ternary r) := by
  have operand := h.equality hr
  exact h.bind operand fun first => h.chain first (by decide) fun _ _ => h.bind operand fun _ =>
    h.bind (h.consume _) fun _ => h.bind operand fun _ => h.bind (h.spanOf _) fun _ =>
      h.bind (h.spanOf _) fun _ => h.pure _

/-- At the limit, the level of the expression is opened and the report made inside it. -/
theorem expressionOver (hinner : ∀ unary ∈ inner, P room unary) :
    P (room + 1) (Grammar.expressionOver limit inner) := by
  refine h.nested ?_
  cases inner with
  | some unary => exact h.ternary (hinner unary rfl)
  | none => exact h.bind h.stream fun _ => h.fail rfl

theorem primary (hr : P room r) : P room (Grammar.primary r) := by
  refine h.bind h.advance fun o => ?_
  cases o with
  | none => exact h.bind h.head fun _ => h.bind h.stream fun _ => h.fail trivial
  | some t =>
    dsimp only
    split
    iterate 6 exact h.pure _
    · exact h.bind hr fun _ => h.bind (h.consume _) fun _ => h.bind (h.startOf _) fun _ =>
        h.bind (h.stopOf _) fun _ => h.pure _
    · exact h.fail trivial

theorem unaryOver (hinner : ∀ unary ∈ inner, P room unary) :
    P (room + 1) (Grammar.unaryOver limit inner) := by
  refine h.bind (h.check _) fun o => ?_
  split
  · refine h.bind h.advance fun _ => h.bind (h.nested ?_) fun _ => h.bind (h.startOf _) fun _ =>
      h.bind (h.spanOf _) fun _ => h.pure _
    cases inner with
    | some unary => exact hinner unary rfl
    | none => exact h.fail rfl
  · exact h.primary (h.expressionOver hinner)

theorem unary (room : Nat) : P (room + 1) (Grammar.unary limit room) := by
  induction room with
  | zero => exact h.unaryOver (by rintro _ ⟨⟩)
  | succ room ih =>
    refine h.unaryOver ?_
    rintro _ ⟨⟩
    exact ih

theorem expression (room : Nat) : P (room + 1) (Grammar.expression limit room) := by
  refine h.expressionOver ?_
  cases room with
  | zero => rintro _ ⟨⟩
  | succ room =>
    rintro _ ⟨⟩
    exact h.unary room

theorem ruleAt (room : Nat) (l : Level) :
    P (room + 1) (Grammar.ruleAt limit room l) := by
  have unary := h.unary room
  have factor : P _ (Grammar.factor _) := h.leftAssociative (by decide) unary
  have term : P _ (Grammar.term _) := h.leftAssociative (by decide) factor
  cases l with
  | choice => exact h.ternary unary
  | equality => exact h.equality unary
  | comparison => exact h.leftAssociative (by decide) term
  | term => exact term
  | factor => exact factor
  | unary => exact unary
  | primary => exact h.primary (h.expression room)

/-! ## Statements -/

theorem variableDeclaration (hr : P room r) : P room (Grammar.variableDeclaration r) := by
  refine h.bind h.advance fun o => ?_
  cases o with
  | none => exact h.bind h.head fun _ => h.fail trivial
  | some keyword =>
    refine h.bind h.consumeName fun name => h.bind (h.check _) fun equal => ?_
    have finish (initial : Option Expr) : P room (do
        let stop ← Rule.consume (.mark .semicolon)
        let span := (← Rule.startOf keyword).join (← Rule.stopOf stop)
        Pure.pure (.declaration name initial (some span)) : Rule Stmt) :=
      h.bind (h.consume _) fun _ => h.bind (h.startOf _) fun _ => h.bind (h.stopOf _) fun _ =>
        h.pure _
    cases equal with
    | none => exact h.bind (h.pure none) finish
    | some _ => exact h.bind h.advance fun _ => h.bind (h.bind hr fun _ => h.pure _) finish

theorem statement (hr : P room r) : P room (Grammar.statement r) := by
  refine h.bind (h.check _) fun o => ?_
  cases o with
  | some keyword =>
    exact h.bind h.advance fun _ => h.bind hr fun _ => h.bind (h.consume _) fun _ =>
      h.bind (h.startOf _) fun _ => h.bind (h.stopOf _) fun _ => h.pure _
  | none =>
    exact h.bind hr fun _ => h.bind (h.consume _) fun _ => h.bind (h.spanOf _) fun _ =>
      h.bind (h.stopOf _) fun _ => h.pure _

theorem declaration (hr : P room r) : P room (Grammar.declaration r) := by
  refine h.bind (h.check _) fun o => ?_
  cases o with
  | some _ => exact h.variableDeclaration hr
  | none => exact h.statement hr

/-- The rules that have the expressions of the grammar in them. -/
theorem overExpression (room : Nat) :
    P (room + 1) (Grammar.expression limit room) ∧
      P (room + 1) (Grammar.variableDeclaration (Grammar.expression limit room)) ∧
      P (room + 1) (Grammar.statement (Grammar.expression limit room)) ∧
      P (room + 1) (Grammar.declaration (Grammar.expression limit room)) := by
  have expression := h.expression room
  exact ⟨expression, h.variableDeclaration expression, h.statement expression,
    h.declaration expression⟩

theorem topDeclaration : P (limit.toNat + 1) (Grammar.topDeclaration limit) :=
  h.declaration (h.expression limit.toNat)

end Hereditary

end Rule

end Lox
