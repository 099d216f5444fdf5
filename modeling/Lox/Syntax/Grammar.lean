import Lox.Syntax.Rule

/-!
# The grammar

From loosest to tightest:

* a declaration is `var` with a name, an optional `=` with an expression, and `;`, or a statement;
* a statement is `print` with an expression and `;`, or an expression and `;`;
* an expression is a choice; choices `c ? a : b` chain to the left, over equalities;
* equalities `!=` `==`, comparisons `>` `>=` `<` `<=`, terms `-` `+` and factors `/` `*` chain to
  the left, each over the next;
* a unary expression is `!` or `-` with a unary expression, or a primary one;
* a primary expression is a literal, a name, or an expression between parentheses.

An expression and the operand of a unary operator lie one level deeper than what holds them, and
there may be no more levels than a limit allows. The rules therefore recurse on the room that is
left: the number of levels that may still be opened. The limit itself is needed for the report only.
-/

namespace Lox.Grammar

open Rule

/-- The limit on nesting where none is given. -/
def defaultLimit : Int := 48

/-- Operators that two values are compared for equality with. -/
def equalityOperators : List Mark := [.bangEqual, .equalEqual]

/-- Operators that two numbers are ordered with. -/
def comparisonOperators : List Mark := [.greater, .greaterEqual, .less, .lessEqual]

/-- Operators of sums. -/
def termOperators : List Mark := [.minus, .plus]

/-- Operators of products. -/
def factorOperators : List Mark := [.slash, .star]

/-- Operators before an operand. -/
def unaryOperators : List Mark := [.bang, .minus]

/-! ## Chains over unary expressions -/

/-- Operands with operators between them, taken from the left. -/
def leftAssociative (operators : List Mark) (operand : Rule Expr) : Rule Expr := do
  let first ← operand
  chain operators (fun left operator => do
    let right ← operand
    let span := (← spanOf left).join (← spanOf right)
    pure (.binary left (.mark operator) right (some span))) first

/-- Products. -/
def factor (unary : Rule Expr) : Rule Expr := leftAssociative factorOperators unary

/-- Sums. -/
def term (unary : Rule Expr) : Rule Expr := leftAssociative termOperators (factor unary)

/-- Comparisons. -/
def comparison (unary : Rule Expr) : Rule Expr := leftAssociative comparisonOperators (term unary)

/-- Equalities. -/
def equality (unary : Rule Expr) : Rule Expr := leftAssociative equalityOperators (comparison unary)

/-- Choices. -/
def ternary (unary : Rule Expr) : Rule Expr := do
  let first ← equality unary
  chain [.question] (fun condition _ => do
    let whenTrue ← equality unary
    let _ ← consume (.mark .colon)
    let whenFalse ← equality unary
    let span := (← spanOf condition).join (← spanOf whenFalse)
    pure (.ternary condition whenTrue whenFalse (some span))) first

/-! ## Nesting -/

/-- An expression, given the unary rule one level deeper; at the limit there is none, and the report
points to the token before the expression. -/
def expressionOver (limit : Int) (inner : Option (Rule Expr)) : Rule Expr :=
  nested <| match inner with
    | some unary => ternary unary
    | none => do report (.nesting limit) (← stream).previousSpan

/-- A literal, a name, or an expression between parentheses. -/
def primary (expression : Rule Expr) : Rule Expr := do
  match ← advance with
  | none =>
    let stop ← head
    let s ← stream
    report .missingExpression (if s.passed.isEmpty then stop.span else s.previousSpan)
  | some t =>
    match t.token with
    | .mark .falseWord => pure (.literal (.boolean false) t.span)
    | .mark .trueWord => pure (.literal (.boolean true) t.span)
    | .mark .nilWord => pure (.literal .nil t.span)
    | .number x => pure (.literal (.number x) t.span)
    | .string s => pure (.literal (.string s) t.span)
    | .identifier name => pure (.named name t.span)
    | .mark .leftParen =>
      let body ← expression
      let close ← consume (.mark .rightParen)
      let span := (← startOf t).join (← stopOf close)
      pure (.grouping body (some span))
    | found => report (.notExpression found) t.span

/-- A unary expression, given the unary rule one level deeper; at the limit there is none, and the
report points to the operator. -/
def unaryOver (limit : Int) (inner : Option (Rule Expr)) : Rule Expr := do
  match ← check (fun k => unaryOperators.any (fun m => k == .mark m)) with
  | some ⟨.mark operator, span⟩ =>
    let _ ← advance
    let right ← nested <| match inner with
      | some unary => unary
      | none => report (.nesting limit) span
    let span := (← startOf ⟨.mark operator, span⟩).join (← spanOf right)
    pure (.unary (.mark operator) right (some span))
  | _ => primary (expressionOver limit inner)

/-- A unary expression with room for some more levels. -/
def unary (limit : Int) : Nat → Rule Expr
  | 0 => unaryOver limit none
  | room + 1 => unaryOver limit (some (delay fun _ => unary limit room))

/-- The unary rule one level deeper, if there is room. -/
def inner (limit : Int) : Nat → Option (Rule Expr)
  | 0 => none
  | room + 1 => some (unary limit room)

/-- An expression with room for some more levels. -/
def expression (limit : Int) (room : Nat) : Rule Expr := expressionOver limit (inner limit room)

/-! ## Statements -/

/-- A variable with an optional first value. -/
def variableDeclaration (expression : Rule Expr) : Rule Stmt := do
  match ← advance with
  | none => report (.missingToken .identifier) (← head).span
  | some keyword =>
    let name ← consumeName
    let initial ← do
      match ← check (· == .mark .equal) with
      | none => pure none
      | some _ =>
        let _ ← advance
        some <$> expression
    let stop ← consume (.mark .semicolon)
    let span := (← startOf keyword).join (← stopOf stop)
    pure (.declaration name initial (some span))

/-- Printing or evaluating an expression. -/
def statement (expression : Rule Expr) : Rule Stmt := do
  match ← check (· == .mark .printWord) with
  | some keyword =>
    let _ ← advance
    let body ← expression
    let stop ← consume (.mark .semicolon)
    let span := (← startOf keyword).join (← stopOf stop)
    pure (.print body (some span))
  | none =>
    let body ← expression
    let stop ← consume (.mark .semicolon)
    let span := (← spanOf body).join (← stopOf stop)
    pure (.expression body (some span))

/-- A declaration or a statement. -/
def declaration (expression : Rule Expr) : Rule Stmt := do
  match ← check (· == .mark .varWord) with
  | some _ => variableDeclaration expression
  | none => statement expression

end Lox.Grammar
