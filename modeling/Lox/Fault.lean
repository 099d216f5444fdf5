import Lox.Diagnostic
import Lox.Syntax.Basic

/-!
# Broken contracts

What no source text brings about by itself, only tokens, trees and limits made by hand: a list of
tokens without an end, a token without a place or a number without a value, a node that is not what
its place asks for, a limit that is too long to be written.

* `Fault`: the ways to break a contract, with their wording in `Fault.message`.
* `Failure`: why a rule of the grammar or an evaluation stopped: a diagnostic for the user, or a
  fault.
-/

namespace Lox

/-- A broken contract between the maker of tokens or trees and their reader. -/
inductive Fault where
  /-- The tokens end without an end mark. -/
  | missingEnd
  /-- No token was read yet. -/
  | noPrevious
  /-- A node needs a span and has none. -/
  | unplacedNode (node : Expr)
  /-- A node would start at a token that has no span. -/
  | unplacedStart
  /-- A node would end at a token that has no span. -/
  | unplacedStop
  /-- A number is needed and has no value. -/
  | missingValue
  /-- A number without a value stands where something else was needed, and has to be named. -/
  | unnamedNumber
  /-- The limit on nesting has to be named and has too many digits. -/
  | unwrittenLimit
  /-- A node is no expression. -/
  | unknownExpression (sort : NodeSort)
  /-- A node is no statement. -/
  | unknownStatement (sort : NodeSort)
  /-- A unary expression has an operator that cannot be one. -/
  | unaryOperator (operator : TokenKind)
  /-- A binary expression has an operator that cannot be one. -/
  | binaryOperator (operator : TokenKind)
  deriving DecidableEq, Repr

namespace Fault

/-- Names an operator behind some words. One without a spelling is called by its flaw alone. -/
def nameOperator (words : String) (operator : TokenKind) : String :=
  match operator.flaw? with
  | some f => f.message
  | none => words ++ operator.spelling

/-- What was broken, in words. -/
def message : Fault → String
  | missingEnd => "consumed all tokens without encountering EOF"
  | noPrevious => "attempted to read previous token at index 0"
  | unplacedNode node => "parsed node has no span: " ++ node.dump
  | unplacedStart => "'NoneType' object has no attribute 'join'"
  | unplacedStop => "'NoneType' object has no attribute 'end'"
  | missingValue => "float() argument must be a string or a real number, not 'NoneType'"
  | unnamedNumber => "must be real number, not NoneType"
  | unwrittenLimit =>
    "Exceeds the limit (" ++ toString Text.maxDigits ++ " digits) for integer string conversion" ++
      "; use sys.set_int_max_str_digits() to increase the limit"
  | unknownExpression sort => "unknown expression node: " ++ sort.name
  | unknownStatement sort => "unknown statement node: " ++ sort.name
  | unaryOperator operator => nameOperator "illegal operator for unary expression: " operator
  | binaryOperator operator => nameOperator "illegal operator for binary expression: " operator

/-- The report of a broken contract. -/
def text (f : Fault) : String := "Internal error: " ++ f.message

end Fault

/-- Why a rule or an evaluation stopped. -/
inductive Failure where
  | diagnostic (d : Diagnostic)
  | fault (f : Fault)
  deriving DecidableEq, Repr

end Lox
