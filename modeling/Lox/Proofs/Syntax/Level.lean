import Lox.Syntax.Grammar

/-!
# Shape, yield and nesting of trees

What the grammar says about trees, without a parser. Every expression has a level, that of its
topmost node, and a tree has the right shape if every operand is of a level that its place admits.
The yield of a tree is the row of tokens that spells it, and the nesting of an expression is the
number of levels that it opens.

* `Level`: the levels of expressions, the loosest first.
* `Expr.Shaped`, `Stmt.Shaped`: the tree obeys the levels.
* `Expr.yield`, `Stmt.yield`: the tokens of a tree.
* `Expr.nesting`: the most parentheses and unary operators on a path to a leaf.
* `Expr.Alike`, `Stmt.Alike`: two trees differ in their spans at most. When two numbers count as the
  same is left open.
-/

namespace Lox

/-- The levels of expressions, from the loosest to the tightest. -/
inductive Level where
  | choice | equality | comparison | term | factor | unary | primary
  deriving DecidableEq, Repr

namespace Level

/-- How tight a level is. -/
def rank : Level → Nat
  | choice => 0
  | equality => 1
  | comparison => 2
  | term => 3
  | factor => 4
  | unary => 5
  | primary => 6

/-- The level of the expressions that an operator between two operands makes, if it makes any. -/
def ofOperator? : TokenKind → Option Level
  | .mark .bangEqual | .mark .equalEqual => some equality
  | .mark .greater | .mark .greaterEqual | .mark .less | .mark .lessEqual => some comparison
  | .mark .minus | .mark .plus => some term
  | .mark .slash | .mark .star => some factor
  | _ => none

end Level

/-! ## Shape -/

namespace Expr

/-- The level of an expression: that of its topmost node. -/
def level : Expr → Level
  | literal _ _ | named _ _ | grouping _ _ | stray _ => .primary
  | unary _ _ _ => .unary
  | binary _ o _ _ => (Level.ofOperator? o).getD .primary
  | ternary _ _ _ _ => .choice

/-- The expression obeys the levels: chains grow to the left, the operand of a unary operator is
unary or primary, and what is looser than its place stands between parentheses. -/
def Shaped : Expr → Prop
  | literal _ _ | named _ _ => True
  | grouping e _ => e.Shaped
  | unary o e _ =>
    (o = .mark .bang ∨ o = .mark .minus) ∧ Level.unary.rank ≤ e.level.rank ∧ e.Shaped
  | binary l o r _ => (∃ k, Level.ofOperator? o = some k ∧ k.rank ≤ l.level.rank ∧
    k.rank < r.level.rank) ∧ l.Shaped ∧ r.Shaped
  | ternary c t f _ => Level.choice.rank < t.level.rank ∧ Level.choice.rank < f.level.rank ∧
    c.Shaped ∧ t.Shaped ∧ f.Shaped
  | stray _ => False

/-- The most parentheses and unary operators on a path from the top to a leaf. -/
def nesting : Expr → Nat
  | literal _ _ | named _ _ | stray _ => 0
  | grouping e _ | unary _ e _ => e.nesting + 1
  | binary l _ r _ => max l.nesting r.nesting
  | ternary c t f _ => max c.nesting (max t.nesting f.nesting)

end Expr

/-- The statement is one, and its expression obeys the levels. -/
def Stmt.Shaped : Stmt → Prop
  | .stray _ => False
  | s => ∀ e ∈ s.body?, e.Shaped

/-! ## Yield -/

/-- The token that stands for a value in a source. -/
def Value.token : Value → Token
  | number x => .number x
  | string s => .string s
  | boolean true => .mark .trueWord
  | boolean false => .mark .falseWord
  | nil => .mark .nilWord

/-- The token of an operator. One that is no mark has none. -/
def TokenKind.tokens : TokenKind → List Token
  | mark m => [.mark m]
  | _ => []

/-- The tokens of an expression, in order. -/
def Expr.yield : Expr → List Token
  | literal v _ => [v.token]
  | named n _ => [.identifier n]
  | grouping e _ => .mark .leftParen :: e.yield ++ [.mark .rightParen]
  | unary o e _ => o.tokens ++ e.yield
  | binary l o r _ => l.yield ++ o.tokens ++ r.yield
  | ternary c t f _ =>
    c.yield ++ .mark .question :: t.yield ++ .mark .colon :: f.yield
  | stray _ => []

/-- The tokens of a statement, in order. -/
def Stmt.yield : Stmt → List Token
  | expression e _ => e.yield ++ [.mark .semicolon]
  | print e _ => .mark .printWord :: e.yield ++ [.mark .semicolon]
  | declaration n none _ => [.mark .varWord, .identifier n, .mark .semicolon]
  | declaration n (some e) _ =>
    .mark .varWord :: .identifier n :: .mark .equal :: e.yield ++ [.mark .semicolon]
  | stray _ => []

/-! ## Trees that differ in their spans only -/

section Alike

variable (same : Float → Float → Prop)

/-- The values are the same, numbers as far as `same` says so. -/
inductive Value.Alike : Value → Value → Prop where
  | number {x y : Float} : same x y → Alike (.number x) (.number y)
  | string (s : String) : Alike (.string s) (.string s)
  | boolean (b : Bool) : Alike (.boolean b) (.boolean b)
  | nil : Alike .nil .nil

/-- The tokens are the same, numbers as far as `same` says so. -/
inductive Token.Alike : Token → Token → Prop where
  | number {x y : Float} : same x y → Alike (.number x) (.number y)
  | other {t : Token} : t.kind ≠ .number → Alike t t

/-- The expressions differ in their spans at most. -/
inductive Expr.Alike : Expr → Expr → Prop where
  | literal {v w : Value} (a b : Option Span) : v.Alike same w → Alike (.literal v a) (.literal w b)
  | named (n : String) (a b : Option Span) : Alike (.named n a) (.named n b)
  | grouping {d e : Expr} (a b : Option Span) : Alike d e → Alike (.grouping d a) (.grouping e b)
  | unary {d e : Expr} (o : TokenKind) (a b : Option Span) :
    Alike d e → Alike (.unary o d a) (.unary o e b)
  | binary {l l' r r' : Expr} (o : TokenKind) (a b : Option Span) :
    Alike l l' → Alike r r' → Alike (.binary l o r a) (.binary l' o r' b)
  | ternary {c c' t t' f f' : Expr} (a b : Option Span) :
    Alike c c' → Alike t t' → Alike f f' → Alike (.ternary c t f a) (.ternary c' t' f' b)
  | stray (k : NodeSort) : Alike (.stray k) (.stray k)

/-- The statements differ in their spans at most. -/
inductive Stmt.Alike : Stmt → Stmt → Prop where
  | expression {d e : Expr} (a b : Option Span) :
    d.Alike same e → Alike (.expression d a) (.expression e b)
  | print {d e : Expr} (a b : Option Span) : d.Alike same e → Alike (.print d a) (.print e b)
  | bare (n : String) (a b : Option Span) : Alike (.declaration n none a) (.declaration n none b)
  | declaration {d e : Expr} (n : String) (a b : Option Span) :
    d.Alike same e → Alike (.declaration n (some d) a) (.declaration n (some e) b)
  | stray (k : NodeSort) : Alike (.stray k) (.stray k)

end Alike

end Lox
