import Lox.Source.Basic

/-!
# A reading head over a source

A cursor stands between two graphemes of its source and holds the span of what was read since it was
last closed. At the end of the source nothing is left to see: `peek` gives no grapheme and `advance`
stays where it is.
-/

namespace Lox

/-- A place in a source, with the span that is being read. -/
structure Cursor where
  source : Source
  /-- The number of graphemes read. -/
  index : Nat := 0
  /-- From where the cursor was last closed up to where it stands. -/
  span : Span := {}
  deriving DecidableEq, Repr

namespace Cursor

/-- Nothing is left to read. -/
def atEnd (c : Cursor) : Bool := c.source.length ≤ c.index

/-- The grapheme `n` places ahead, none past the end. -/
def peek (c : Cursor) (n : Nat := 0) : Option Grapheme := c.source.graphemes[c.index + n]?

/-- The grapheme at any distance, ahead or behind. Past the end there is none. A place in front of
the source is counted from its end (`Source.get?`), and there is no answer for one still further
out. -/
def peekAt (c : Cursor) (n : Int) : Option (Option Grapheme) :=
  if c.source.length ≤ c.index + n then some none
  else (c.source.get? (c.index + n)).map some

/-- Ahead of the cursor this is `peek`. -/
theorem peekAt_natCast (c : Cursor) (n : Nat) : c.peekAt n = some (c.peek n) := by
  rw [peekAt, peek, ← Int.natCast_add]
  by_cases past : c.source.length ≤ c.index + n
  · rw [if_pos (Int.ofNat_le.mpr past), List.getElem?_eq_none past]
  · have inside : c.index + n < c.source.graphemes.length := Nat.lt_of_not_le past
    rw [if_neg fun h => past (Int.ofNat_le.mp h), Source.get?, if_pos (Int.natCast_nonneg _),
      Int.toNat_natCast, List.getElem?_eq_getElem inside]
    rfl

/-- Reads one grapheme, if one is left. -/
def advance (c : Cursor) : Option Grapheme × Cursor :=
  match c.peek with
  | none => (none, c)
  | some g => (some g, { c with index := c.index + 1, span := c.span.extend g.chars })

/-- Reads one grapheme if it is the expected one. Expecting the end of the source holds there and
moves nothing. -/
def advanceIf (c : Cursor) (expected : Option Grapheme) : Bool × Cursor :=
  if c.peek = expected then (true, c.advance.2) else (false, c)

/-- The text read since the cursor was last closed. -/
def lexeme (c : Cursor) : String := c.source.textOf c.span

/-- The span read since the cursor was last closed, and the cursor with an empty span where it
stands. -/
def close (c : Cursor) : Span × Cursor := (c.span, { c with span := c.span.close })

end Cursor

end Lox
