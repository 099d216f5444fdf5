import Lox.Stack
import Lox.Syntax.Basic

/-!
# Canonical source

A tree written back as source text: one statement a line, one space around binary operators, none
after unary ones, and parentheses only where the tree has them. What the grammar built from some
text reads back as the same tree, for the parentheses of the text are part of the tree.

* `Expr.source`, `Stmt.source`: a tree as source text.
* `programSource`: the text of a program.
* `canonical`: the same, with the reasons why a tree has no text.
-/

namespace Lox

namespace Value

/-- The literal for a value. -/
def literalText : Value → String
  | string s => "\"" ++ s ++ "\""
  | v => v.display

end Value

namespace Expr

/-- The expression as source text. -/
def source : Expr → String
  | literal v _ => v.literalText
  | named n _ => n
  | grouping e _ => "(" ++ e.source ++ ")"
  | unary o e _ => o.spelling ++ e.source
  | binary l o r _ => l.source ++ " " ++ o.spelling ++ " " ++ r.source
  | ternary c t f _ => c.source ++ " ? " ++ t.source ++ " : " ++ f.source
  | stray s => s.name

end Expr

namespace Stmt

/-- The statement as source text. -/
def source : Stmt → String
  | expression e _ => e.source ++ ";"
  | print e _ => "print " ++ e.source ++ ";"
  | declaration n none _ => "var " ++ n ++ ";"
  | declaration n (some e) _ => "var " ++ n ++ " = " ++ e.source ++ ";"
  | stray s => s.name

end Stmt

/-- The text of a program: its statements, each on a line of its own. -/
def programSource (ss : List Stmt) : String := String.join (ss.map fun s => s.source ++ "\n")

/-- Why a tree cannot be shown. -/
inductive Unshowable where
  | flawed (f : Flaw)
  /-- It is too deep for the stack. -/
  | tooDeep
  deriving DecidableEq, Repr

/-- Why a tree of this height and with this first flaw cannot be shown. -/
def obstacle? [Stack] (height : Nat) (flaw? : Option Flaw) : Option Unshowable :=
  if Stack.frames < height then some .tooDeep else flaw?.map .flawed

namespace Expr

/-- The source text of an expression that can be shown. -/
def source? [Stack] (e : Expr) : Except Unshowable String :=
  match obstacle? e.height (e.flaw? false) with
  | some u => .error u
  | none => .ok e.source

end Expr

namespace Stmt

/-- The source text of a statement that can be shown. -/
def source? [Stack] (s : Stmt) : Except Unshowable String :=
  match obstacle? s.height (s.flaw? false) with
  | some u => .error u
  | none => .ok s.source

end Stmt

/-- The canonical text of a program, if every statement can be shown. -/
def canonical [Stack] (ss : List Stmt) : Except Unshowable String := do
  let lines ← ss.mapM Stmt.source?
  pure (String.join (lines.map (· ++ "\n")))

end Lox
