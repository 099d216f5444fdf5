import Lox.Corpus.Draw
import Lox.Text.LineBreaks
import Lox.Token.Basic

/-!
# Random programs

Programs of one to eight statements, some with a comment behind them. Expressions are nested at most
three deep and use only names that an earlier statement declares. They may fail when run, for
nothing cares for the sorts of the operands.

* `Phrase`: an expression, as it is written down.
* `Line`: a line of a program.
* `Draw.program`: a random program.
-/

namespace Lox.Corpus

/-! ## Phrases and lines -/

/-- An expression, as it is written down. Operands stand side by side without parentheses, so how
operators bind is not up to the phrase. -/
inductive Phrase where
  | name (name : String)
  | whole (n : Nat)
  /-- A number with a fraction. -/
  | pointed (whole fraction : Nat)
  | string (text : String)
  | boolean (b : Bool)
  | nil
  | unary (operator : Mark) (operand : Phrase)
  | binary (operator : Mark) (left right : Phrase)
  | parentheses (body : Phrase)
  /-- A choice between parentheses. -/
  | choice (condition whenTrue whenFalse : Phrase)
  deriving DecidableEq, Repr

namespace Phrase

/-- The text of a phrase. -/
def text : Phrase → String
  | name s => s
  | whole n => toString n
  | pointed n f => toString n ++ "." ++ toString f
  | string s => "\"" ++ s ++ "\""
  | boolean b => if b then "true" else "false"
  | nil => "nil"
  | unary o p => o.spelling ++ p.text
  | binary o l r => l.text ++ " " ++ o.spelling ++ " " ++ r.text
  | parentheses p => "(" ++ p.text ++ ")"
  | choice c t f => "(" ++ c.text ++ " ? " ++ t.text ++ " : " ++ f.text ++ ")"

end Phrase

/-- A line of a program. -/
inductive Line where
  | declaration (name : String) (initial : Option Phrase)
  | print (p : Phrase)
  | expression (p : Phrase)
  | comment (word : String)
  deriving DecidableEq, Repr

namespace Line

/-- The text of a line. -/
def text : Line → String
  | declaration name none => "var " ++ name ++ ";"
  | declaration name (some p) => "var " ++ name ++ " = " ++ p.text ++ ";"
  | print p => "print " ++ p.text ++ ";"
  | expression p => p.text ++ ";"
  | comment word => "// " ++ word

end Line

/-- The text of a program. -/
def textOf (program : List Line) : String := Text.ofLines (program.map Line.text)

/-! ## Draws -/

/-- The characters from one on, up to another. -/
def charsFrom (first last : Char) : List Char :=
  (List.range (last.toNat - first.toNat + 1)).map fun i => Char.ofNat (first.toNat + i)

/-- The letters that are drawn, after the first of them. -/
def moreLetters : List Char := charsFrom 'b' 'z' ++ charsFrom 'A' 'Z'

/-- The digits that are drawn. -/
def digits : List Char := charsFrom '0' '9'

/-- A name with an underscore behind it if it is a keyword without. -/
def unlessKeyword (s : String) : String :=
  if (Mark.ofKeyword? s).isSome then s ++ "_" else s

/-- The operators that stand between operands, after the first of them. -/
def moreOperators : List Mark :=
  [.minus, .star, .slash, .equalEqual, .bangEqual, .less, .lessEqual, .greater, .greaterEqual]

namespace Draw

/-- A name of up to eleven characters that is no keyword. -/
def name : Draw String := do
  let first ← oneOf 'a' (moreLetters ++ ['_'])
  let length ← between 0 10
  let rest ← times length (oneOf 'a' (moreLetters ++ digits ++ ['_']))
  pure (unlessKeyword (String.ofList (first :: rest)))

/-- A number below a thousand, with one or two decimal places or none. -/
def number : Draw Phrase := do
  let whole ← between 0 999
  if ← chance 0.3 then
    let fraction ← between 1 98
    pure (.pointed whole fraction)
  else pure (.whole whole)

/-- A string of up to twelve characters. -/
def string : Draw Phrase := do
  let length ← between 0 12
  let cs ← times length (oneOf 'a' (moreLetters ++ digits ++ [' ', '_', '-']))
  pure (.string (String.ofList cs))

/-- A literal: a number, a string, a truth value or nil. -/
def literal : Draw Phrase :=
  fraction fun x =>
    if x < 0.45 then number
    else if x < 0.65 then string
    else if x < 0.9 then do pure (.boolean (← oneOf true [false]))
    else pure .nil

/-- A literal, or one of the names. -/
def leaf : List String → Draw Phrase
  | [] => literal
  | name :: names => do
    if ← chance 0.25 then pure (.name (← oneOf name names)) else literal

/-- An expression over some names, nested up to a depth. -/
def phrase (names : List String) : Nat → Draw Phrase
  | 0 => leaf names
  | depth + 1 => do
    if ← chance 0.3 then leaf names
    else
      fraction fun x =>
        if x < 0.5 then do
          let operator ← oneOf .plus moreOperators
          let left ← phrase names depth
          let right ← phrase names depth
          pure (.binary operator left right)
        else if x < 0.65 then do
          pure (.parentheses (← phrase names depth))
        else if x < 0.8 then do
          let operator ← oneOf .minus [.bang]
          pure (.unary operator (← phrase names depth))
        else do
          let condition ← phrase names depth
          let whenTrue ← phrase names depth
          let whenFalse ← phrase names depth
          pure (.choice condition whenTrue whenFalse)

/-- How deep expressions are nested. -/
def depth : Nat := 3

/-- A statement over some names. -/
def statement (names : List String) : Draw Line :=
  fraction fun x =>
    if x < 0.3 then do
      let declared ← name
      if ← chance 0.8 then pure (.declaration declared (some (← phrase names depth)))
      else pure (.declaration declared none)
    else if x < 0.7 then do pure (.print (← phrase names depth))
    else do pure (.expression (← phrase names depth))

/-- A comment, now and then. -/
def comment : Draw (Option Line) := do
  if ← chance 0.1 then pure (some (.comment (← name))) else pure none

end Draw

/-- The names in use after a line. -/
def Line.namesAfter (names : List String) : Line → List String
  | declaration name _ => names ++ [name]
  | _ => names

namespace Draw

/-- So many statements over some names, with their comments. -/
def statements : List String → Nat → Draw (List Line)
  | _, 0 => done []
  | names, n + 1 => do
    let line ← statement names
    let comment ← comment
    let more ← statements (line.namesAfter names) n
    pure (line :: comment.toList ++ more)

/-- A program of one to eight statements. -/
def program : Draw (List Line) := do
  let n ← between 1 7
  statements [] n

end Draw

end Lox.Corpus
