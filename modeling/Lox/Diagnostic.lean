import Lox.Token.Basic
import Lox.Value

/-!
# Diagnostics

What is reported to the user, by the stage that found it. A diagnostic has a cause and, where one is
known, a place.

* `Cause`: why a stage could not go on, each with its wording in `Cause.message?`.
* `Diagnostic.text`: place, stage, message and subject in one text.
* `Diagnostic.render`: a list of diagnostics, one after another.
-/

namespace Lox

/-- The stage that found a fault in a program. -/
inductive DiagnosticKind where
  | scanning
  | parsing
  | runtime
  deriving DecidableEq, Repr, Inhabited

namespace DiagnosticKind

/-- The stage as a diagnostic calls it. -/
def display : DiagnosticKind → String
  | scanning => "Scanning"
  | parsing => "Parsing"
  | runtime => "Runtime"

end DiagnosticKind

/-- Why a stage could not go on. -/
inductive Cause where
  /-- No token starts with this grapheme. -/
  | unexpectedCharacter (symbol : Grapheme)
  /-- No quote closes a string. -/
  | unterminatedString
  /-- The source ended where a token of some kind was needed. -/
  | missingToken (wanted : TokenKind)
  /-- Another token stands where one of some kind was needed. -/
  | wrongToken (wanted : TokenKind) (found : Token)
  /-- The source ended where an expression was needed. -/
  | missingExpression
  /-- A token stands where an expression was needed. -/
  | notExpression (found : Token)
  /-- Expressions are nested deeper than the limit. -/
  | nesting (limit : Int)
  /-- No such variable is defined. -/
  | undefinedVariable (name : String)
  /-- A unary operator cannot take the operand. -/
  | unaryOperand (operator : Mark) (operand : Value)
  /-- A binary operator cannot take the operands. -/
  | binaryOperand (operator : Mark) (left right : Value)
  /-- The condition of a choice is no truth value. -/
  | condition (value : Value)
  /-- Evaluating the expression exhausts the stack. -/
  | tooDeepToEvaluate
  /-- Showing the expression exhausts the stack. -/
  | tooDeepToDisplay
  /-- A report in words of its own. -/
  | note (kind : DiagnosticKind) (message : String) (subject : Option String)
  deriving DecidableEq, Repr

namespace Cause

/-- The stage that the cause belongs to. -/
def kind : Cause → DiagnosticKind
  | unexpectedCharacter _ | unterminatedString => .scanning
  | missingToken _ | wrongToken _ _ | missingExpression | notExpression _ | nesting _ => .parsing
  | undefinedVariable _ | unaryOperand _ _ | binaryOperand _ _ _ | condition _ => .runtime
  | tooDeepToEvaluate | tooDeepToDisplay => .runtime
  | note kind _ _ => kind

/-- What went wrong, in words, with all the digits of a limit however many they are. -/
def message : Cause → String
  | unexpectedCharacter _ => "Unexpected character"
  | unterminatedString => "Unterminated String"
  | missingToken wanted => "Reached end of file while expecting '" ++ wanted.display ++ "'"
  | wrongToken wanted found =>
    "Expected '" ++ wanted.display ++ "', instead found '" ++ found.text ++ "'"
  | missingExpression => "Ran out of tokens while satisfying expression rule"
  | notExpression found => "Expected value or expression, found '" ++ found.text ++ "'"
  | nesting limit => "Expression nesting exceeds maximum depth of " ++ toString limit
  | undefinedVariable _ => "Undefined variable"
  | unaryOperand operator _ =>
    "Illegal operand for unary '" ++ operator.spelling ++ "' expression"
  | binaryOperand operator _ _ =>
    "Illegal operand for binary '" ++ operator.spelling ++ "' expression"
  | condition _ => "Non boolean type used as condition in ternary"
  | tooDeepToEvaluate => "Expression too deeply nested to evaluate"
  | tooDeepToDisplay => "Expression too deeply nested to display"
  | note _ message _ => message

/-- What went wrong, in words. There are none where a limit has more digits than may be written. -/
def message? : Cause → Option String
  | nesting limit =>
    (Text.ofInteger? limit).map ("Expression nesting exceeds maximum depth of " ++ ·)
  | cause => some cause.message

/-- The words, where there are some, are those of `message`. -/
theorem message_eq_of_message? {cause : Cause} {words : String} (h : cause.message? = some words) :
    cause.message = words := by
  unfold message? Text.ofInteger? at h
  split at h
  · split at h
    · exact Option.some.inj h
    · cases h
  · exact Option.some.inj h

/-- What the message is about, if it names something. -/
def subject : Cause → Option String
  | unexpectedCharacter symbol => some symbol.text
  | undefinedVariable name => some name
  | unaryOperand _ operand => some operand.debug
  | binaryOperand operator left right =>
    some (left.debug ++ " " ++ operator.spelling ++ " " ++ right.debug)
  | condition value => some value.debug
  | note _ _ subject => subject
  | _ => none

end Cause

/-- A report to the user. -/
structure Diagnostic where
  cause : Cause
  span : Option Span := none
  deriving DecidableEq, Repr

namespace Diagnostic

/-- The stage that reports. -/
def kind (d : Diagnostic) : DiagnosticKind := d.cause.kind

/-- There are words for what the report says. -/
def isWorded (d : Diagnostic) : Bool := d.cause.message?.isSome

/-- The report in full. The place comes first and the subject last; either may be missing. -/
def text (d : Diagnostic) : String :=
  let place := match d.span with
    | none => ""
    | some s => "[line: " ++ toString s.start.line ++ ", col: " ++ toString s.start.column ++ "] "
  let subject := match d.cause.subject with
    | none => ""
    | some subject => ": " ++ subject
  place ++ d.kind.display ++ " Error (" ++ d.cause.message ++ ")" ++ subject

/-- The reports with line feeds between them. -/
def render (ds : List Diagnostic) : String := String.intercalate "\n" (ds.map text)

/-- The report at an index; a negative index counts from the end. -/
def get? (ds : List Diagnostic) (i : Int) : Option Diagnostic :=
  if 0 ≤ i then ds[i.toNat]?
  else if -i ≤ ds.length then ds[ds.length - i.natAbs]?
  else none

end Diagnostic

end Lox
