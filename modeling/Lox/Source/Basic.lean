import Lox.Grapheme.Laws
import Lox.Location

/-!
# Sources

A source is a text in its graphemes. Spans index graphemes, so a stretch of a source is found
without counting bytes or code points.

* `Source.get?`: the grapheme at an index.
* `Source.textOf`: the text of a stretch.
-/

namespace Lox

/-- A text, read grapheme by grapheme. -/
structure Source where
  graphemes : List Grapheme
  deriving DecidableEq, Repr, Inhabited

namespace Source

/-- The source that a text is. -/
def ofText [Segmenter] (text : String) : Source := ⟨Grapheme.split text⟩

/-- The number of graphemes. -/
def length (s : Source) : Nat := s.graphemes.length

/-- The grapheme at an index; a negative index counts from the end. -/
def get? (s : Source) (i : Int) : Option Grapheme :=
  if 0 ≤ i then s.graphemes[i.toNat]?
  else if -i ≤ s.length then s.graphemes[s.length - i.natAbs]?
  else none

/-- The number of graphemes before an index; a negative index counts from the end. -/
def before (s : Source) (i : Int) : Nat := (if 0 ≤ i then i else s.length + i).toNat

/-- The graphemes of a stretch. What lies past the end of the source is left out, and a stretch that
ends before it starts is empty. -/
def slice (s : Source) (span : Span) : List Grapheme :=
  let start := s.before span.start.index
  (s.graphemes.drop start).take (s.before span.stop.index - start)

/-- The text of a stretch. -/
def textOf (s : Source) (span : Span) : String := Grapheme.join (s.slice span)

/-- All stretches together are the text. -/
theorem join_graphemes_ofText [Segmenter] (text : String) :
    Grapheme.join (ofText text).graphemes = text :=
  Grapheme.join_split text

end Source

end Lox
