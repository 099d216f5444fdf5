import Lox.Decimal.Shortest

/-!
# How a decimal is laid out

Which digits stand for a double is fixed by `Decimal.shortest`; a layout fixes the rest: whether a
whole number shows a point, which numbers are written with an exponent and in what form, and the
text for what is no number.

* `Layout.plain`: as a source spells numbers, never with an exponent.
* `Layout.exact`: as a token dump shows them.
* `Layout.debug`: as a debug text of a value shows them.
-/

namespace Lox

/-- The decisions of a number format. -/
structure Layout where
  /-- Numbers whose first digit stands in the place 10 ^ e are written positionally if e lies in
  this range, the upper end excluded; without a range all are. -/
  positional : Option (Int × Int)
  /-- A whole number is written with a point and a zero. -/
  pointZero : Bool
  /-- An exponent that is not negative has a sign. -/
  plus : Bool
  /-- The least number of digits of an exponent. -/
  exponentWidth : Nat
  /-- The text for what is no number. -/
  nan : String

namespace Layout

/-- Numbers as a source spells them: the digits in their places and nothing superfluous. -/
def plain : Layout where
  positional := none
  pointZero := false
  plus := false
  exponentWidth := 1
  nan := "NaN"

/-- Numbers as a token dump shows them: positional from 10 ^ -4 to below 10 ^ 16, otherwise with a
signed exponent of at least two digits. -/
def exact : Layout where
  positional := some (-4, 16)
  pointZero := true
  plus := true
  exponentWidth := 2
  nan := "nan"

/-- Numbers as a debug text shows them: like `exact`, with the bare exponent. -/
def debug : Layout where
  positional := some (-4, 16)
  pointZero := true
  plus := false
  exponentWidth := 1
  nan := "NaN"

/-- The digits of a whole number. -/
def digits (n : Nat) : List Char := Nat.toDigits 10 n

/-- A decimal in positional form, without its sign. -/
def positionalText (l : Layout) (d : Decimal) : List Char :=
  let ds := digits d.coefficient
  if 0 ≤ d.exponent then
    ds ++ List.replicate d.exponent.toNat '0' ++ if l.pointZero then ['.', '0'] else []
  else
    let places := d.exponent.natAbs
    if places < ds.length then ds.take (ds.length - places) ++ '.' :: ds.drop (ds.length - places)
    else '0' :: '.' :: List.replicate (places - ds.length) '0' ++ ds

/-- An exponent: its sign and at least the least number of digits. -/
def exponentText (l : Layout) (e : Int) : List Char :=
  let ds := digits e.natAbs
  let sign := if e < 0 then ['-'] else if l.plus then ['+'] else []
  sign ++ List.replicate (l.exponentWidth - ds.length) '0' ++ ds

/-- A decimal in the form with an exponent, without its sign: one digit before the point. -/
def scientificText (l : Layout) (d : Decimal) : List Char :=
  let ds := digits d.coefficient
  let fraction := ds.drop 1
  ds.take 1 ++ (if fraction.isEmpty then [] else '.' :: fraction) ++
    'e' :: l.exponentText (d.exponent + (ds.length - 1))

/-- The place of the first digit: the number lies between 10 to this power and ten times that. -/
def leadingExponent (d : Decimal) : Int :=
  if d.coefficient = 0 then 0 else d.exponent + ((digits d.coefficient).length - 1)

/-- The decimal is written in positional form. -/
def isPositional (l : Layout) (d : Decimal) : Bool :=
  match l.positional with
  | none => true
  | some (low, high) => low ≤ leadingExponent d && leadingExponent d < high

/-- A decimal in a layout. -/
def decimalText (l : Layout) (d : Decimal) : List Char :=
  (if d.negative then ['-'] else []) ++
    if l.isPositional d then l.positionalText d else l.scientificText d

/-- A double in a layout. -/
def write (l : Layout) (x : Float) : String :=
  if x.isNaN then l.nan
  else if x.isInf then if x < 0 then "-inf" else "inf"
  else String.ofList (l.decimalText (Decimal.shortest x))

end Layout

end Lox
