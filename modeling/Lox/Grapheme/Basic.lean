import Lox.Location
import Lox.Text.Letters

/-!
# Graphemes

What a reader counts as one character: a code point and those that combine with it. A source is read
grapheme by grapheme, so a digit or a quote that carries a combining mark is neither a digit nor a
quote.

* `Grapheme.isDigit`: the grapheme is one ASCII digit and nothing else.
* `Grapheme.isAlpha`, `Grapheme.isAlphanumeric`: it may start a name, or continue one. The first
  code point decides; the underscore counts only when it stands alone.
* `Grapheme.join`: the text of a run of graphemes.
-/

namespace Lox

/-- A code point together with those that combine with it. -/
structure Grapheme where
  lead : Char
  marks : List Char := []
  deriving DecidableEq, Repr, Inhabited

namespace Grapheme

/-- The code points of a grapheme, in order. -/
def chars (g : Grapheme) : List Char := g.lead :: g.marks

/-- The grapheme as text. -/
def text (g : Grapheme) : String := String.ofList g.chars

/-- The grapheme that a text consists of; the empty text is none. -/
def ofText? (s : String) : Option Grapheme :=
  match s.toList with
  | [] => none
  | c :: cs => some ⟨c, cs⟩

/-- The text of a run of graphemes. -/
def join (gs : List Grapheme) : String := String.ofList (gs.flatMap chars)

/-- One ASCII digit without marks. -/
def isDigit : Grapheme → Bool
  | ⟨c, []⟩ => c.isDigit
  | _ => false

/-- The underscore by itself, or a grapheme whose first code point is a letter. -/
def isAlpha (g : Grapheme) : Bool := g == ⟨'_', []⟩ || Text.isLetter g.lead

/-- What may continue a name: `isAlpha`, or a first code point that is a digit or a number. -/
def isAlphanumeric (g : Grapheme) : Bool := g.isAlpha || Text.isLetterOrNumeral g.lead

/-- A line break: a line feed, or a carriage return and a line feed. -/
def isNewline (g : Grapheme) : Bool := Location.breaksLine g.chars

theorem chars_ofText? {s : String} {g : Grapheme} (h : ofText? s = some g) :
    g.chars = s.toList := by
  unfold ofText? at h
  split at h
  · simp at h
  · cases h
    simp_all [chars]

end Grapheme

end Lox
