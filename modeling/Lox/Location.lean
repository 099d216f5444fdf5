/-!
# Places in a source

A location is a point between two graphemes: its line and column, counted from one, and the number
of graphemes before it. Locations made by hand may have any numbers. A span is the stretch between
two locations, the end excluded.

* `Location.advance` moves a location past one grapheme; a line break starts a new line.
* `Span.extend`, `Span.close` and `Span.join` are how spans grow, start afresh and are put together.
-/

namespace Lox

/-- A point in a source. -/
structure Location where
  line : Int := 1
  column : Int := 1
  index : Int := 0
  deriving DecidableEq, Repr, Inhabited

namespace Location

/-- A line feed, alone or after a carriage return, ends a line. A carriage return alone does not. -/
def breaksLine : List Char → Bool
  | ['\n'] => true
  | ['\r', '\n'] => true
  | _ => false

/-- The location past one more grapheme, given by its code points. -/
def advance (l : Location) (grapheme : List Char) : Location :=
  if breaksLine grapheme then ⟨l.line + 1, 1, l.index + 1⟩
  else ⟨l.line, l.column + 1, l.index + 1⟩

end Location

/-- The stretch of a source from one location up to another. -/
structure Span where
  start : Location := {}
  stop : Location := {}
  deriving DecidableEq, Repr, Inhabited

namespace Span

/-- The span with one more grapheme at its end. -/
def extend (s : Span) (grapheme : List Char) : Span := ⟨s.start, s.stop.advance grapheme⟩

/-- The empty span at the end of a span. -/
def close (s : Span) : Span := ⟨s.stop, s.stop⟩

/-- From the start of one span to the end of another. -/
def join (s t : Span) : Span := ⟨s.start, t.stop⟩

/-- The number of graphemes; negative when the end lies before the start. -/
def width (s : Span) : Int := s.stop.index - s.start.index

/-- Line and column of the start, as a dump shows them. -/
def position (s : Span) : String := s!"{s.start.line}:{s.start.column}"

end Span

end Lox
