import Lox.Fault
import Lox.Scope
import Lox.Stack

/-!
# Evaluation

An expression is evaluated from left to right: both operands of an operator, but only the chosen
side of a choice. The first operand that fails decides the failure. Every level of the tree takes
frames of the stack, two for an operator or a choice and one for parentheses, and a tree without
frames left fails before anything inside it is looked at.

* `Expr.eval`: the value of an expression, with the meaning of names given by a function.
* `Stop`: why an evaluation stopped.
-/

namespace Lox

/-- Why an evaluation stopped. -/
inductive Stop where
  | diagnostic (d : Diagnostic)
  | fault (f : Fault)
  /-- No frames are left. -/
  | exhausted
  deriving DecidableEq, Repr

/-- What an operator makes of two numbers, for the operators that need numbers. -/
def Mark.numeric? : Mark → Option (Float → Float → Value)
  | .minus => some fun x y => .number (x - y)
  | .plus => some fun x y => .number (x + y)
  | .star => some fun x y => .number (x * y)
  | .slash => some fun x y => .number (x / y)
  | .greater => some fun x y => .boolean (x > y)
  | .greaterEqual => some fun x y => .boolean (x ≥ y)
  | .less => some fun x y => .boolean (x < y)
  | .lessEqual => some fun x y => .boolean (x ≤ y)
  | _ => none

namespace Expr

/-- The value of a unary operator at an operand. -/
def applyUnary (operator : TokenKind) (operand : Value) (span : Option Span) : Except Stop Value :=
  match operator, operand with
  | .mark .minus, .number x => .ok (.number (-x))
  | .mark .minus, _ => .error (.diagnostic ⟨.unaryOperand .minus operand, span⟩)
  | .mark .bang, _ =>
    match operand.truth with
    | some b => .ok (.boolean !b)
    | none => .error (.diagnostic ⟨.unaryOperand .bang operand, span⟩)
  | _, _ => .error (.fault (.unaryOperator operator))

/-- The value of a mark between two operands. -/
def applyMark (operator : Mark) (left right : Value) (span : Option Span) : Except Stop Value :=
  match operator with
  | .equalEqual => .ok (.boolean (left.equals right))
  | .bangEqual => .ok (.boolean !left.equals right)
  | _ =>
    match operator.numeric?, left, right with
    | none, _, _ => .error (.fault (.binaryOperator (.mark operator)))
    | some apply, .number x, .number y => .ok (apply x y)
    | some _, _, _ => .error (.diagnostic ⟨.binaryOperand operator left right, span⟩)

/-- The value of a binary operator at two operands. -/
def applyBinary (operator : TokenKind) (left right : Value) (span : Option Span) :
    Except Stop Value :=
  match operator with
  | .mark m => applyMark m left right span
  | _ => .error (.fault (.binaryOperator operator))

/-- Walks on with fewer frames, if any are left then. -/
def descend (cost frames : Nat) (walk : Nat → Except Stop Value) : Except Stop Value :=
  if cost < frames then walk (frames - cost) else .error .exhausted

/-- The value of an expression, with so many frames of the stack left. -/
def eval (lookup : String → Option Value) : Expr → Nat → Except Stop Value
  | literal value _, _ => .ok value
  | named name span, _ =>
    match lookup name with
    | some value => .ok value
    | none => .error (.diagnostic ⟨.undefinedVariable name, span⟩)
  | grouping body _, frames => descend 1 frames (body.eval lookup)
  | unary operator right span, frames => do
    let operand ← descend 2 frames (right.eval lookup)
    applyUnary operator operand span
  | binary left operator right span, frames => do
    let l ← descend 2 frames (left.eval lookup)
    let r ← descend 2 frames (right.eval lookup)
    applyBinary operator l r span
  | ternary condition whenTrue whenFalse _, frames => do
    match ← descend 2 frames (condition.eval lookup) with
    | .boolean true => descend 2 frames (whenTrue.eval lookup)
    | .boolean false => descend 2 frames (whenFalse.eval lookup)
    | value => .error (.diagnostic ⟨.condition value, condition.span⟩)
  | stray sort, _ => .error (.fault (.unknownExpression sort))

/-- The value of an expression over global names. -/
def evaluate [Stack] (globals : Bindings) (e : Expr) : Except Stop Value :=
  e.eval (fun name => globals[name]?) Stack.frames

end Expr

end Lox
