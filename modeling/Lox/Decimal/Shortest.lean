import Lox.Decimal.Basic

/-!
# The shortest decimal of a double

A double is written with the fewest digits that read back to it. Its exact value is itself a
decimal, with up to some hundreds of digits; of the decimals with one digit, two digits and so on,
the two that enclose the exact value are tried, the nearer first, and the first that reads back is
taken. Of two that are equally near the one with an even last digit goes first.

* `Decimal.exact`: the exact value of a finite double.
* `Decimal.shortest`: the fewest digits that read back to it. What is chosen by the search reads
  back: `Decimal.toFloat_of_shorten`.
-/

namespace Lox.Decimal

/-- The number of fractions that the bits of a double have room for. -/
def fractionCount : Nat := 1 <<< 52

/-- The number of exponents that the bits of a double have room for. -/
def exponentCount : Nat := 1 <<< 11

/-- The exact value of a finite double, from the sign, the exponent and the fraction in its bits. -/
def exact (x : Float) : Decimal :=
  let bits := x.toBits.toNat
  let negative := bits / fractionCount / exponentCount = 1
  let biased := bits / fractionCount % exponentCount
  let fraction := bits % fractionCount
  let mantissa := if biased = 0 then fraction else fraction + fractionCount
  -- The double is mantissa · 2 ^ (power - 1074).
  let power := if biased = 0 then 0 else biased - 1
  if 1074 ≤ power then
    { negative, coefficient := mantissa <<< (power - 1074) }
  else
    let places := 1074 - power
    { negative, coefficient := mantissa * Nat.pow 5 places, exponent := -places }

/-- The number of digits of the coefficient. -/
def size (d : Decimal) : Nat := (Nat.toDigits 10 d.coefficient).length

/-- The two decimals with `k` digits that enclose a decimal, the nearer first; of two equally near
the one with an even last digit. -/
def enclosing (d : Decimal) (k : Nat) : List Decimal :=
  let dropped := d.size - k
  let unit := Nat.pow 10 dropped
  let low := d.coefficient / unit
  let excess := 2 * (d.coefficient % unit)
  let below := { d with coefficient := low, exponent := d.exponent + dropped }
  let above := { d with coefficient := low + 1, exponent := d.exponent + dropped }
  if excess < unit ∨ (excess = unit ∧ low % 2 = 0) then [below, above] else [above, below]

/-- Of the two decimals with `k` digits that enclose `d`, the nearer that reads back to the double.
-/
def shorten (x : Float) (d : Decimal) (k : Nat) : Option Decimal :=
  (d.enclosing k).find? fun c => c.toFloat = x

/-- The decimal with the fewest digits that reads back to a finite double. -/
def shortest (x : Float) : Decimal :=
  let d := exact x
  (((List.range' 1 (d.size - 1)).findSome? (shorten x d)).getD d).trimmed

theorem toFloat_of_shorten {x : Float} {k : Nat} {c d : Decimal} (h : shorten x d k = some c) :
    c.toFloat = x := by
  have found := List.find?_some h
  simpa using found

end Lox.Decimal
