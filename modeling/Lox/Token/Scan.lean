import Lox.Diagnostic
import Lox.Source.Basic

/-!
# Reading tokens from a source

A source is cut into pieces, one after another. The first grapheme of a piece says how far the piece
reaches (`Piece.extent`), and the graphemes of a piece say what it is (`Piece.reading`): a token, or
something that no token starts with. Positions are added afterwards, by walking over the pieces.

* `Piece.cut`: the pieces of a run of graphemes. They lose nothing: `Piece.flatMap_graphemes_cut`.
* `Source.scan`: tokens and diagnostics of a source, in order. The last token marks the end.
  `Cursor.scan?` finds them by asking a cursor for one grapheme after another.
-/

namespace Lox

/-- A stretch of a source that is read as a whole: its first grapheme and those after it. -/
structure Piece where
  lead : Grapheme
  tail : List Grapheme
  deriving DecidableEq, Repr

namespace Piece

/-- All graphemes of the piece. -/
def graphemes (p : Piece) : List Grapheme := p.lead :: p.tail

/-- The text of the piece. -/
def text (p : Piece) : String := Grapheme.join p.graphemes

/-- The marks that are one grapheme long and that no other mark starts with. -/
def single? : Grapheme → Option Mark
  | ⟨'(', []⟩ => some .leftParen
  | ⟨')', []⟩ => some .rightParen
  | ⟨'\x7b', []⟩ => some .leftBrace
  | ⟨'\x7d', []⟩ => some .rightBrace
  | ⟨',', []⟩ => some .comma
  | ⟨'.', []⟩ => some .dot
  | ⟨'-', []⟩ => some .minus
  | ⟨'+', []⟩ => some .plus
  | ⟨';', []⟩ => some .semicolon
  | ⟨'*', []⟩ => some .star
  | ⟨'?', []⟩ => some .question
  | ⟨':', []⟩ => some .colon
  | _ => none

/-- The marks that an equals sign may follow: the mark alone, and the mark with the sign. -/
def withEqual? : Grapheme → Option (Mark × Mark)
  | ⟨'!', []⟩ => some (.bang, .bangEqual)
  | ⟨'=', []⟩ => some (.equal, .equalEqual)
  | ⟨'<', []⟩ => some (.less, .lessEqual)
  | ⟨'>', []⟩ => some (.greater, .greaterEqual)
  | _ => none

/-- How far a number reaches beyond its first digit: over the digits, and over a point and more
digits if a digit follows the point. -/
def numberExtent (rest : List Grapheme) : Nat :=
  let whole := (rest.takeWhile Grapheme.isDigit).length
  match rest.drop whole with
  | ⟨'.', []⟩ :: d :: more =>
    if d.isDigit then whole + 1 + ((d :: more).takeWhile Grapheme.isDigit).length else whole
  | _ => whole

/-- How many of the graphemes after the first one belong to the piece. -/
def extent (lead : Grapheme) (rest : List Grapheme) : Nat :=
  if (withEqual? lead).isSome then
    if rest.head? = some ⟨'=', []⟩ then 1 else 0
  else if lead = ⟨'/', []⟩ then
    if rest.head? = some ⟨'/', []⟩ then (rest.takeWhile (fun g => !g.isNewline)).length else 0
  else if lead = ⟨'"', []⟩ then
    -- Without a closing quote this reaches past the end, and the piece is all that is left.
    (rest.takeWhile (fun g => g != ⟨'"', []⟩)).length + 1
  else if lead.isDigit then numberExtent rest
  else if lead.isAlpha then (rest.takeWhile Grapheme.isAlphanumeric).length
  else 0

/-- The number that digits, or digits with a point between them, stand for. -/
def numberOf (p : Piece) : Float :=
  let digits := p.graphemes.map Grapheme.lead
  (Decimal.ofDigits (digits.takeWhile (· != '.')) ((digits.dropWhile (· != '.')).drop 1)).toFloat

/-- The keyword or the name that a word is. -/
def wordOf (text : String) : Token :=
  match Mark.ofKeyword? text with
  | some keyword => .mark keyword
  | none => .identifier text

/-- What the piece is. -/
def reading (p : Piece) : Except Cause Token :=
  match single? p.lead, withEqual? p.lead, Blank.ofGrapheme? p.lead with
  | some mark, _, _ => .ok (.mark mark)
  | _, some (alone, withEqual), _ => .ok (.mark (if p.tail.isEmpty then alone else withEqual))
  | _, _, some blank => .ok (.whitespace blank)
  | none, none, none =>
    if p.lead = ⟨'/', []⟩ then
      .ok (if p.tail.isEmpty then .mark .slash else .comment p.text)
    else if p.lead = ⟨'"', []⟩ then
      if p.tail.getLast? = some ⟨'"', []⟩ then .ok (.string (Grapheme.join p.tail.dropLast))
      else .error .unterminatedString
    else if p.lead.isDigit then .ok (.number p.numberOf)
    else if p.lead.isAlpha then .ok (wordOf p.text)
    else .error (.unexpectedCharacter p.lead)

/-- The pieces of a run of graphemes. -/
def cut : List Grapheme → List Piece
  | [] => []
  | lead :: rest =>
    ⟨lead, rest.take (extent lead rest)⟩ :: cut (rest.drop (extent lead rest))
termination_by gs => gs.length
decreasing_by rw [List.length_drop, List.length_cons]; omega

/-- The pieces, put together, are what was cut. -/
theorem flatMap_graphemes_cut (gs : List Grapheme) : (cut gs).flatMap graphemes = gs := by
  induction gs using cut.induct with
  | case1 => simp [cut]
  | case2 lead rest ih => simp [cut, graphemes, ih]

end Piece

namespace Location

/-- The location past a run of graphemes. -/
def advanceOver (l : Location) (gs : List Grapheme) : Location :=
  gs.foldl (fun l g => l.advance g.chars) l

end Location

/-- A piece at its place. -/
structure PlacedPiece where
  piece : Piece
  span : Span
  deriving DecidableEq, Repr

namespace PlacedPiece

/-- Pieces that follow each other, from a location on. -/
def place (l : Location) : List Piece → List PlacedPiece
  | [] => []
  | p :: ps =>
    let stop := l.advanceOver p.graphemes
    ⟨p, ⟨l, stop⟩⟩ :: place stop ps

/-- The token that the piece is. -/
def token? (p : PlacedPiece) : Option PlacedToken :=
  match p.piece.reading with
  | .ok t => some ⟨t, some p.span⟩
  | .error _ => none

/-- The diagnostic of a piece that is no token. -/
def diagnostic? (p : PlacedPiece) : Option Diagnostic :=
  match p.piece.reading with
  | .ok _ => none
  | .error cause => some ⟨cause, some p.span⟩

end PlacedPiece

/-- What scanning a source gives. -/
structure Scanned where
  tokens : List PlacedToken
  errors : List Diagnostic
  deriving DecidableEq, Repr

namespace Source

/-- The pieces of a source at their places. -/
def pieces (s : Source) : List PlacedPiece := PlacedPiece.place {} (Piece.cut s.graphemes)

/-- The location at the end of a source. -/
def endLocation (s : Source) : Location := Location.advanceOver {} s.graphemes

/-- The empty token at the end of a source. -/
def endToken (s : Source) : PlacedToken :=
  ⟨.mark .endOfFile, some ⟨s.endLocation, s.endLocation⟩⟩

/-- Tokens and diagnostics of a source. What is no token is reported and left out; reading goes on
behind it. -/
def scan (s : Source) : Scanned :=
  { tokens := s.pieces.filterMap PlacedPiece.token? ++ [s.endToken]
    errors := s.pieces.filterMap PlacedPiece.diagnostic? }

end Source

end Lox
