import Lox.Text.Integer

/-!
# Decimal numbers and their texts

A decimal is a whole coefficient times a power of ten. Numbers are read through it: the digits of a
text fix a decimal, and the decimal is rounded once to the nearest double.

* `Decimal.valueOfDigits`: the number that a run of digits stands for.
* `Decimal.ofDigits`: the decimal of a whole part and a fraction, as a number literal has them.
* `Decimal.ofChars?`: decimal texts with a sign and an exponent.
* `Decimal.floatOfText?`: the same with blanks, underscores and digits of any script, and the words
  for what is no decimal.
* `Decimal.trimmed`: the one decimal for a number that has no zeros at its end.
* `Decimal.toFloat`: the nearest double; a tie goes to the even one.
-/

namespace Lox

/-- The number ± `coefficient` · 10 ^ `exponent`. -/
structure Decimal where
  negative : Bool := false
  coefficient : Nat
  exponent : Int := 0
  deriving DecidableEq, Repr

namespace Decimal

/-- The number that a run of ASCII digits stands for. -/
def valueOfDigits (ds : List Char) : Nat :=
  ds.foldl (fun n c => 10 * n + (c.toNat - '0'.toNat)) 0

/-- The decimal with these digits before and after the point. -/
def ofDigits (whole fraction : List Char) : Decimal :=
  { coefficient := valueOfDigits (whole ++ fraction), exponent := -fraction.length }

/-- Moves the zeros at the end of a coefficient into the exponent. -/
def trim (coefficient : Nat) (exponent : Int) : Nat × Int :=
  if h : coefficient ≠ 0 ∧ coefficient % 10 = 0 then trim (coefficient / 10) (exponent + 1)
  else if coefficient = 0 then (0, 0) else (coefficient, exponent)
termination_by coefficient
decreasing_by omega

/-- The same number without zeros at the end of its coefficient. -/
def trimmed (d : Decimal) : Decimal :=
  let (coefficient, exponent) := trim d.coefficient d.exponent
  { d with coefficient, exponent }

/-- The double nearest to `coefficient` · 10 ^ `exponent`. From 10 ^ 400 on it is infinite, and
below 2 ^ -1100 it is zero; there the power of ten need not be computed. -/
def nearest (coefficient : Nat) (exponent : Int) : Float :=
  if coefficient = 0 then 0
  else if 400 ≤ exponent then 1 / 0
  else if coefficient.log2 + 1101 ≤ 3 * -exponent then 0
  else Float.ofScientific coefficient (exponent < 0) exponent.natAbs

/-- The nearest double. All decimals for one number are trimmed alike, so it is the same for them.
-/
def toFloat (d : Decimal) : Float :=
  let t := d.trimmed
  let magnitude := nearest t.coefficient t.exponent
  if d.negative then -magnitude else magnitude

/-- The sign before a number, and what follows it. -/
def sign : List Char → Bool × List Char
  | '-' :: cs => (true, cs)
  | '+' :: cs => (false, cs)
  | cs => (false, cs)

/-- An exponent with its mark, or nothing. -/
def exponent? : List Char → Option Int
  | [] => some 0
  | c :: cs =>
    if c = 'e' ∨ c = 'E' then
      let (negative, ds) := sign cs
      if ds ≠ [] ∧ ds.all Char.isDigit then
        some (if negative then -(valueOfDigits ds) else valueOfDigits ds)
      else none
    else none

/-- Reads a decimal text: a sign, digits with or without a point, and an exponent. Sign, point and
exponent may be missing. -/
def ofChars? (cs : List Char) : Option Decimal := do
  let (negative, cs) := sign cs
  let (whole, cs) := cs.span Char.isDigit
  let (fraction, cs) := match cs with
    | '.' :: cs => cs.span Char.isDigit
    | cs => ([], cs)
  guard (whole ++ fraction ≠ [])
  let exponent ← exponent? cs
  pure { ofDigits whole fraction with negative, exponent := exponent - fraction.length }

/-- The characters without single underscores between digits; no others may stand anywhere. -/
def withoutUnderscores? (behindDigit : Bool) : List Char → Option (List Char)
  | [] => some []
  | '_' :: c :: cs =>
    if behindDigit ∧ c.isDigit then (withoutUnderscores? true cs).map (c :: ·) else none
  | c :: cs => if c = '_' then none else (withoutUnderscores? c.isDigit cs).map (c :: ·)

/-- The digit that a character is as an ASCII digit; any other character as it is. -/
def asciiDigit (c : Char) : Char :=
  match Text.digitValue? c with
  | some d => Char.ofNat ('0'.toNat + d)
  | none => c

/-- Reads a double: a decimal text, or a word for infinity or for no number. There may be blanks
around it and underscores between its digits, and the digits may be those of any script. -/
def floatOfText? (s : String) : Option Float := do
  let cs ← withoutUnderscores? false ((Text.trimBlanks s.toList).map asciiDigit)
  let (negative, word) := sign cs
  match String.ofList (word.map Char.toLower) with
  | "inf" | "infinity" => pure (if negative then -1 / 0 else 1 / 0)
  | "nan" => pure (0 / 0)
  | _ => (ofChars? cs).map toFloat

end Decimal

end Lox
