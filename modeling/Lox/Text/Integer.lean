import Lox.Text.Ranges

/-!
# Whole numbers as arguments

A whole number may be given with a sign and with blanks around it. Its digits may be those of any
script, and single underscores may stand between them.

* `digitValue?`: the digit that a character is.
* `integerOf?`: the whole number that a text stands for.
* `ofInteger?`: the text that a whole number has. Numbers of very many digits have none, and no text
  stands for them.
-/

namespace Lox.Text

/-- The zeros of the scripts that count in tens. The other nine digits follow each of them. -/
def zeros : List Nat :=
  [0x30, 0x660, 0x6F0, 0x7C0, 0x966, 0x9E6, 0xA66, 0xAE6, 0xB66, 0xBE6, 0xC66, 0xCE6, 0xD66, 0xDE6,
    0xE50, 0xED0, 0xF20, 0x1040, 0x1090, 0x17E0, 0x1810, 0x1946, 0x19D0, 0x1A80, 0x1A90, 0x1B50,
    0x1BB0, 0x1C40, 0x1C50, 0xA620, 0xA8D0, 0xA900, 0xA9D0, 0xA9F0, 0xAA50, 0xABF0, 0xFF10, 0x104A0,
    0x10D30, 0x11066, 0x110F0, 0x11136, 0x111D0, 0x112F0, 0x11450, 0x114D0, 0x11650, 0x116C0,
    0x11730, 0x118E0, 0x11950, 0x11C50, 0x11D50, 0x11DA0, 0x16A60, 0x16AC0, 0x16B50, 0x1D7CE,
    0x1D7D8, 0x1D7E2, 0x1D7EC, 0x1D7F6, 0x1E140, 0x1E2F0, 0x1E950, 0x1FBF0]

/-- The digit that a character is. -/
def digitValue? (c : Char) : Option Nat :=
  (zeros.find? fun first => first ≤ c.toNat ∧ c.toNat ≤ first + 9).map (c.toNat - ·)

/-- The character is a digit. -/
def isDecimalDigit (c : Char) : Bool := (digitValue? c).isSome

/-- The blanks that may stand around a number. -/
def blankRanges : Ranges :=
  [(0x9, 0xD), (0x20, 0x20), (0x85, 0x85), (0xA0, 0xA0), (0x1680, 0x1680), (0x2000, 0x200A),
    (0x2028, 0x2029), (0x202F, 0x202F), (0x205F, 0x205F), (0x3000, 0x3000)]

/-- The character is a blank. -/
def isBlank (c : Char) : Bool := blankRanges.contains c.toNat

/-- The characters without the blanks around them. -/
def trimBlanks (cs : List Char) : List Char :=
  ((cs.dropWhile isBlank).reverse.dropWhile isBlank).reverse

/-- The digits of a number that may have single underscores between its digits. -/
def digitsOf? : List Char → Option (List Nat)
  | [] => none
  | [c] => (digitValue? c).map ([·])
  | c :: '_' :: cs => do
    let d ← digitValue? c
    let ds ← digitsOf? cs
    pure (d :: ds)
  | c :: cs => do
    let d ← digitValue? c
    let ds ← digitsOf? cs
    pure (d :: ds)

/-- The most digits that a number may have, read or written. -/
def maxDigits : Nat := 4300

/-- The number that the characters stand for. -/
def naturalOf? (cs : List Char) : Option Nat := do
  let ds ← digitsOf? cs
  guard (ds.length ≤ maxDigits)
  pure (ds.foldl (fun n d => 10 * n + d) 0)

/-- The whole number that a text stands for. -/
def integerOf? (s : String) : Option Int :=
  match trimBlanks s.toList with
  | '-' :: cs => (naturalOf? cs).map fun n => -n
  | '+' :: cs => (naturalOf? cs).map Int.ofNat
  | cs => (naturalOf? cs).map Int.ofNat

/-- The whole number has no more digits than may be written. -/
def isWritable (n : Int) : Bool := n.natAbs < Nat.pow 10 maxDigits

/-- The text of a whole number. -/
def ofInteger? (n : Int) : Option String := if isWritable n then some (toString n) else none

end Lox.Text
