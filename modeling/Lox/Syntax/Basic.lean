import Lox.Token.Basic
import Lox.Value

/-!
# Syntax trees

Expressions and statements as the grammar builds them, with the stretch of source that each was read
from. Trees built by hand may lack spans, and may hold a node of the wrong sort where an expression
or a statement belongs; such a node is a leaf that only says what it is (`stray`). Their operators
may be tokens of any kind, without what tokens of the kind carry.

* `Expr`, `Stmt`: the trees.
* `Expr.bare`, `Stmt.bare`: the tree without its spans. Two trees are alike if these are equal.
* `Expr.height`: the number of nodes on the longest path to a leaf.
* `Flaw`: what keeps a tree from being written down, and `Stmt.flaw?` the first one in a statement.
-/

namespace Lox

/-- The sorts of nodes, for naming one that stands where it does not belong. -/
inductive NodeSort where
  | literal | named | grouping | unary | binary | ternary
  | expression | print | declaration
  /-- No node at all. -/
  | missing
  deriving DecidableEq, Repr, Inhabited

namespace NodeSort

/-- The name of the sort in reports. -/
def name : NodeSort → String
  | literal => "Literal"
  | named => "Variable"
  | grouping => "Grouping"
  | unary => "Unary"
  | binary => "Binary"
  | ternary => "Ternary"
  | expression => "ExpressionStmt"
  | print => "PrintStmt"
  | declaration => "VarStmt"
  | missing => "NoneType"

end NodeSort

/-- What keeps a tree from being written down. -/
inductive Flaw where
  /-- A node of this sort stands where an expression belongs. -/
  | notExpression (sort : NodeSort)
  /-- A node of this sort stands where a statement belongs. -/
  | notStatement (sort : NodeSort)
  /-- An operator is a number and says not which. -/
  | numberMissing
  /-- An operator is white space and says not which. -/
  | blankMissing
  deriving DecidableEq, Repr

namespace Flaw

/-- What is wrong, in words. -/
def message : Flaw → String
  | notExpression sort => "not an expression: " ++ sort.name
  | notStatement sort => "not a statement: " ++ sort.name
  | numberMissing => "must be real number, not NoneType"
  | blankMissing => "'NoneType' object has no attribute 'name'"

end Flaw

namespace TokenKind

/-- The spelling of an operator of the kind, which carries nothing. A text that is missing says so.
-/
def spelling : TokenKind → String
  | mark m => m.spelling
  | string => "\"None\""
  | _ => "None"

/-- Why an operator of the kind has no spelling, if it has none. -/
def flaw? : TokenKind → Option Flaw
  | number => some .numberMissing
  | whitespace => some .blankMissing
  | _ => none

end TokenKind

/-- An expression. -/
inductive Expr where
  | literal (value : Value) (span : Option Span)
  /-- A variable, by its name. -/
  | named (name : String) (span : Option Span)
  /-- An expression between parentheses. -/
  | grouping (body : Expr) (span : Option Span)
  | unary (operator : TokenKind) (right : Expr) (span : Option Span)
  | binary (left : Expr) (operator : TokenKind) (right : Expr) (span : Option Span)
  /-- A choice between two expressions. -/
  | ternary (condition whenTrue whenFalse : Expr) (span : Option Span)
  /-- Something that is no expression. -/
  | stray (sort : NodeSort)
  deriving DecidableEq, Repr, Inhabited

namespace Expr

/-- The stretch of source that the expression was read from. -/
def span : Expr → Option Span
  | literal _ s | named _ s | grouping _ s | unary _ _ s | binary _ _ _ s | ternary _ _ _ s => s
  | stray _ => none

/-- The expression without its spans. -/
def bare : Expr → Expr
  | literal v _ => literal v none
  | named n _ => named n none
  | grouping e _ => grouping e.bare none
  | unary o e _ => unary o e.bare none
  | binary l o r _ => binary l.bare o r.bare none
  | ternary c t f _ => ternary c.bare t.bare f.bare none
  | stray s => stray s

/-- The number of nodes on the longest path down. -/
def height : Expr → Nat
  | literal _ _ | named _ _ | stray _ => 1
  | grouping e _ | unary _ e _ => e.height + 1
  | binary l _ r _ => max l.height r.height + 1
  | ternary c t f _ => max c.height (max t.height f.height) + 1

/-- The first flaw that writing the expression from left to right comes upon. A binary operator is
written before its operands or between them. -/
def flaw? (operatorFirst : Bool) : Expr → Option Flaw
  | literal _ _ | named _ _ => none
  | grouping e _ => e.flaw? operatorFirst
  | unary o e _ => o.flaw? <|> e.flaw? operatorFirst
  | binary l o r _ =>
    if operatorFirst then o.flaw? <|> l.flaw? operatorFirst <|> r.flaw? operatorFirst
    else l.flaw? operatorFirst <|> o.flaw? <|> r.flaw? operatorFirst
  | ternary c t f _ =>
    c.flaw? operatorFirst <|> t.flaw? operatorFirst <|> f.flaw? operatorFirst
  | stray s => some (.notExpression s)

/-- The expression as a report about the tree shows it. -/
def dump : Expr → String
  | literal v _ => "Literal(value=" ++ v.debug ++ ")"
  | named n _ => "Variable(name=" ++ (Token.identifier n).dump ++ ")"
  | grouping e _ => "Grouping(expression=" ++ e.dump ++ ")"
  | unary o e _ => "Unary(operator=Token(" ++ o.name ++ "), right=" ++ e.dump ++ ")"
  | binary l o r _ =>
    "Binary(left=" ++ l.dump ++ ", operator=Token(" ++ o.name ++ "), right=" ++ r.dump ++ ")"
  | ternary c t f _ =>
    "Ternary(condition=" ++ c.dump ++ ", left_result=" ++ t.dump ++
      ", right_result=" ++ f.dump ++ ")"
  | stray s => s.name

end Expr

/-- A statement. -/
inductive Stmt where
  /-- An expression, evaluated for nothing but its failure. -/
  | expression (body : Expr) (span : Option Span)
  | print (body : Expr) (span : Option Span)
  /-- A variable, with its first value if one is given. -/
  | declaration (name : String) (initial : Option Expr) (span : Option Span)
  /-- Something that is no statement. -/
  | stray (sort : NodeSort)
  deriving DecidableEq, Repr, Inhabited

namespace Stmt

/-- The stretch of source that the statement was read from. -/
def span : Stmt → Option Span
  | expression _ s | print _ s | declaration _ _ s => s
  | stray _ => none

/-- The statement without its spans. -/
def bare : Stmt → Stmt
  | expression e _ => expression e.bare none
  | print e _ => print e.bare none
  | declaration n e _ => declaration n (e.map Expr.bare) none
  | stray s => stray s

/-- The expression that the statement holds. -/
def body? : Stmt → Option Expr
  | expression e _ | print e _ => some e
  | declaration _ e _ => e
  | stray _ => none

/-- The first flaw that writing the statement comes upon. -/
def flaw? (operatorFirst : Bool) : Stmt → Option Flaw
  | stray s => some (.notStatement s)
  | s => s.body?.bind (Expr.flaw? operatorFirst)

/-- The number of nodes on the longest path down. -/
def height (s : Stmt) : Nat := (s.body?.map Expr.height).getD 0 + 1

end Stmt

end Lox
