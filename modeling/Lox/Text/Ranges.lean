/-!
# Sets of code points as ranges

A property of code points is a list of closed ranges in ascending order, apart from each other.
`Ranges.contains` stops at the first range that lies above the code point, so a code point near the
start of the list is decided at once.
-/

namespace Lox.Text

/-- Closed ranges of code points, ascending and apart. -/
abbrev Ranges := List (Nat × Nat)

namespace Ranges

/-- The code point lies in one of the ranges. -/
def contains : Ranges → Nat → Bool
  | [], _ => false
  | (low, high) :: more, n => if n < low then false else n ≤ high || contains more n

/-- The ranges are ascending and apart, each of them holding at least one code point. -/
def ascending : Ranges → Bool
  | [] => true
  | [(low, high)] => low ≤ high
  | (low, high) :: (low', high') :: more =>
    low ≤ high && high < low' && ascending ((low', high') :: more)

end Ranges

end Lox.Text
