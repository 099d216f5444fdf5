import Lox.Grapheme.Basic
import Lox.Grapheme.Property

/-!
# Splitting a text into graphemes

The boundaries of extended grapheme clusters. Whether a boundary stands before a code point depends
on its class and on how the cluster before it ends (`Tail`): the class of the last code point,
whether it closes a picture that a joiner may prolong, and whether it is the first half of a flag.

* `Tail.admits`: no boundary stands between a cluster with this tail and the next code point.
* `Grapheme.splitChars`: the clusters of a run of code points. They lose nothing:
  `Grapheme.flatMap_chars_splitChars`.
-/

namespace Lox

/-- How an open cluster ends, as far as the boundary rules look back. -/
structure Tail where
  /-- The class of its last code point. -/
  last : BoundaryClass
  /-- It ends in a picture and any number of extending code points. -/
  picture : Bool
  /-- It ends in such a picture and a joiner. -/
  joined : Bool
  /-- It ends in an odd number of flag halves. -/
  halfFlag : Bool
  deriving DecidableEq, Repr

namespace Tail

/-- The tail of a cluster that holds one code point. -/
def start (b : BoundaryClass) : Tail :=
  ⟨b, b == .pictographic, false, b == .regional⟩

/-- The tail after one more code point. -/
def push (t : Tail) (b : BoundaryClass) : Tail :=
  { last := b
    picture := b == .pictographic || (b == .extend && t.picture)
    joined := b == .joiner && t.picture
    halfFlag := b == .regional && !t.halfFlag }

/-- No boundary stands between the cluster and a code point of this class. -/
def admits (t : Tail) (b : BoundaryClass) : Bool :=
  match t.last, b with
  | .carriageReturn, .lineFeed => true
  | last, b =>
    if last.standsAlone || b.standsAlone then false
    else match last, b with
      | .hangulL, .hangulL | .hangulL, .hangulV | .hangulL, .hangulLV | .hangulL, .hangulLVT => true
      | .hangulLV, .hangulV | .hangulV, .hangulV | .hangulLV, .hangulT | .hangulV, .hangulT => true
      | .hangulLVT, .hangulT | .hangulT, .hangulT => true
      | _, .extend | _, .joiner | _, .spacingMark => true
      | .leading, _ => true
      | .joiner, .pictographic => t.joined
      | .regional, .regional => t.halfFlag
      | _, _ => false

end Tail

namespace Grapheme

/-- What is read from inside an open cluster: the rest of that cluster, and the clusters after it.
-/
abbrev Reading := List Char × List Grapheme

/-- The code point stands in the open cluster. -/
def Reading.mark (c : Char) (r : Reading) : Reading := (c :: r.1, r.2)

/-- The code point opens a cluster of its own. -/
def Reading.lead (c : Char) (r : Reading) : Reading := ([], ⟨c, r.1⟩ :: r.2)

/-- Reads code points after an open cluster with the given tail. -/
def segment : Tail → List Char → Reading
  | _, [] => ([], [])
  | t, c :: cs =>
    if t.admits (.ofChar c) then .mark c (segment (t.push (.ofChar c)) cs)
    else .lead c (segment (.start (.ofChar c)) cs)

/-- The grapheme clusters of a run of code points. -/
def splitChars : List Char → List Grapheme
  | [] => []
  | c :: cs => (Reading.lead c (segment (.start (.ofChar c)) cs)).2

theorem segment_chars (t : Tail) (cs : List Char) :
    (segment t cs).1 ++ (segment t cs).2.flatMap chars = cs := by
  induction cs generalizing t with
  | nil => rfl
  | cons c cs ih =>
    unfold segment
    split
    · simp [Reading.mark, ih]
    · simp [Reading.lead, chars, ih]

theorem flatMap_chars_splitChars (cs : List Char) : (splitChars cs).flatMap chars = cs := by
  cases cs with
  | nil => rfl
  | cons c cs => simp [splitChars, Reading.lead, chars, segment_chars]

end Grapheme

end Lox
