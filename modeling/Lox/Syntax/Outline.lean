import Lox.Syntax.Canonical

/-!
# Outlines

A tree written with its operators in front, every compound expression between parentheses, and each
statement named by its sort. Outlines show how a text was understood.

* `Expr.outline`, `Stmt.outline`: the outline of a tree.
* `Expr.outline?`, `Stmt.outline?`: the outline of a tree that can be shown.
-/

namespace Lox

namespace Expr

/-- The outline of an expression. -/
def outline : Expr → String
  | literal v _ => v.display
  | named n _ => n
  | grouping e _ => "(group " ++ e.outline ++ ")"
  | unary o e _ => "(" ++ o.spelling ++ " " ++ e.outline ++ ")"
  | binary l o r _ => "(" ++ o.spelling ++ " " ++ l.outline ++ " " ++ r.outline ++ ")"
  | ternary c t f _ => "(" ++ c.outline ++ " ? " ++ t.outline ++ " : " ++ f.outline ++ ")"
  | stray s => s.name

/-- The outline of an expression that can be shown. -/
def outline? [Stack] (e : Expr) : Except Unshowable String :=
  match obstacle? e.height (e.flaw? true) with
  | some u => .error u
  | none => .ok e.outline

end Expr

namespace Stmt

/-- The outline of a statement. -/
def outline : Stmt → String
  | expression e _ => "Expression Statement: " ++ e.outline
  | print e _ => "Print Statement: " ++ e.outline
  | declaration n none _ => "Variable Statement: " ++ n
  | declaration n (some e) _ => "Variable Statement: " ++ n ++ " = " ++ e.outline
  | stray s => s.name

/-- The outline of a statement that can be shown. -/
def outline? [Stack] (s : Stmt) : Except Unshowable String :=
  match obstacle? s.height (s.flaw? true) with
  | some u => .error u
  | none => .ok s.outline

end Stmt

end Lox
