import Lox.Decimal.Basic
import Lox.Source.Cursor
import Lox.Token.Scan

/-!
# Scanning with a cursor

A scanner that never looks at its source as a whole: it asks a cursor for one grapheme after another
and closes the span that it has read at the end of each round. The first grapheme of a round says
how the round goes on. `Source.scan` cuts the same pieces off the source without a cursor.

* `Cursor.advanceWhile`, `Cursor.advancePast`, `Cursor.advanceNumber`: the loops inside a round.
* `Cursor.read`: a round behind its first grapheme.
* `Cursor.scan?`: all rounds. None is a failure of the scanner itself, where it takes for a number
  what is none.
-/

namespace Lox

/-- What was found, and what one more stretch was read as: a token, or something to report. -/
def Scanned.note (found : Scanned) (span : Span) : Except Cause Token → Scanned
  | .ok t => { found with tokens := found.tokens ++ [⟨t, some span⟩] }
  | .error cause => { found with errors := found.errors ++ [⟨cause, some span⟩] }

namespace Cursor

/-- The number of graphemes that are not read yet. -/
def left (c : Cursor) : Nat := c.source.length - c.index

theorem left_advance_lt {c : Cursor} {g : Grapheme} (h : c.peek = some g) :
    c.advance.2.left < c.left := by
  have here : c.index < c.source.length := (List.getElem?_eq_some_iff.mp h).1
  rw [advance, h]
  simp only [left]
  omega

theorem left_advance_le (c : Cursor) : c.advance.2.left ≤ c.left := by
  cases next : c.peek with
  | none => exact Nat.le_of_eq (by rw [advance, next])
  | some g => exact Nat.le_of_lt (left_advance_lt next)

theorem left_advanceIf_le (c : Cursor) (expected : Option Grapheme) :
    (c.advanceIf expected).2.left ≤ c.left := by
  unfold advanceIf
  split
  · exact c.left_advance_le
  · exact Nat.le_refl _

/-- Reads on as long as the next grapheme is of some sort. -/
def advanceWhile (c : Cursor) (f : Grapheme → Bool) : Cursor :=
  match _ : c.peek with
  | none => c
  | some g => if f g then c.advance.2.advanceWhile f else c
termination_by c.left
decreasing_by exact left_advance_lt ‹_›

theorem left_advanceWhile_le (c : Cursor) (f : Grapheme → Bool) :
    (c.advanceWhile f).left ≤ c.left := by
  fun_induction advanceWhile c f with
  | case1 => exact Nat.le_refl _
  | case2 c g _ _ ih => exact Nat.le_trans ih c.left_advance_le
  | case3 => exact Nat.le_refl _

/-- Reads on until some grapheme was read. The answer is no if there is none, and all is read
then. -/
def advancePast (c : Cursor) (last : Grapheme) : Bool × Cursor :=
  match _ : c.peek with
  | none => (false, c)
  | some g => if g = last then (true, c.advance.2) else c.advance.2.advancePast last
termination_by c.left
decreasing_by exact left_advance_lt ‹_›

theorem left_advancePast_le (c : Cursor) (last : Grapheme) :
    (c.advancePast last).2.left ≤ c.left := by
  fun_induction advancePast c last with
  | case1 => exact Nat.le_refl _
  | case2 c => exact c.left_advance_le
  | case3 c g _ _ ih => exact Nat.le_trans ih c.left_advance_le

/-- Reads the rest of a number: digits, and a point with more digits if a digit follows it. -/
def advanceNumber (c : Cursor) : Cursor :=
  let c := c.advanceWhile Grapheme.isDigit
  if c.peek = some ⟨'.', []⟩ ∧ (c.peek 1).any Grapheme.isDigit then
    c.advance.2.advanceWhile Grapheme.isDigit
  else c

theorem left_advanceNumber_le (c : Cursor) : c.advanceNumber.left ≤ c.left := by
  have whole := c.left_advanceWhile_le Grapheme.isDigit
  unfold advanceNumber
  dsimp only
  split
  · exact Nat.le_trans (left_advanceWhile_le _ _) (Nat.le_trans (left_advance_le _) whole)
  · exact whole

/-- The text between the first and the last code point. -/
def inner (text : String) : String := String.ofList text.toList.tail.dropLast

/-- A round behind its first grapheme: what the round reads, and the cursor at its end. Nothing is
read where the text of a number is none. -/
def read (c : Cursor) (lead : Grapheme) : Option (Except Cause Token) × Cursor :=
  match Piece.single? lead, Piece.withEqual? lead with
  | some mark, _ => (some (.ok (.mark mark)), c)
  | none, some (alone, withEqual) =>
    let (found, c) := c.advanceIf (some ⟨'=', []⟩)
    (some (.ok (.mark (if found then withEqual else alone))), c)
  | none, none =>
    if lead = ⟨'/', []⟩ then
      let (found, c) := c.advanceIf (some ⟨'/', []⟩)
      if found then
        let c := c.advanceWhile fun g => !g.isNewline
        (some (.ok (.comment c.lexeme)), c)
      else (some (.ok (.mark .slash)), c)
    else match Blank.ofGrapheme? lead with
    | some blank => (some (.ok (.whitespace blank)), c)
    | none =>
      if lead = ⟨'"', []⟩ then
        let (closed, c) := c.advancePast ⟨'"', []⟩
        if closed then (some (.ok (.string (inner c.lexeme))), c)
        else (some (.error .unterminatedString), c)
      else if lead.isDigit then
        let c := c.advanceNumber
        ((Decimal.floatOfText? c.lexeme).map fun x => .ok (.number x), c)
      else if lead.isAlpha then
        let c := c.advanceWhile Grapheme.isAlphanumeric
        (some (.ok (Piece.wordOf c.lexeme)), c)
      else (some (.error (.unexpectedCharacter lead)), c)

/-- No round goes back. -/
theorem left_read_le (c : Cursor) (lead : Grapheme) : (c.read lead).2.left ≤ c.left := by
  unfold read
  split
  · exact Nat.le_refl _
  · exact c.left_advanceIf_le _
  split
  · have slash := c.left_advanceIf_le (some ⟨'/', []⟩)
    dsimp only
    split
    · exact Nat.le_trans (left_advanceWhile_le _ _) slash
    · exact slash
  split
  · exact Nat.le_refl _
  split
  · have quote := c.left_advancePast_le ⟨'"', []⟩
    dsimp only
    split <;> exact quote
  split
  · exact c.left_advanceNumber_le
  split
  · exact c.left_advanceWhile_le _
  · exact Nat.le_refl _

/-- Reads round after round, with what was found so far, up to the end of the source. -/
def scanFrom? (c : Cursor) (found : Scanned) : Option Scanned :=
  match _ : c.peek with
  | none => some (found.note c.close.1 (.ok (.mark .endOfFile)))
  | some lead =>
    let stop := (c.advance.2.read lead).2
    match (c.advance.2.read lead).1 with
    | none => none
    | some reading => stop.close.2.scanFrom? (found.note stop.close.1 reading)
termination_by c.left
decreasing_by exact Nat.lt_of_le_of_lt (left_read_le _ lead) (left_advance_lt ‹_›)

/-- Tokens and diagnostics of a source, read with a cursor. -/
def scan? (s : Source) : Option Scanned := scanFrom? { source := s } ⟨[], []⟩

end Cursor

end Lox
