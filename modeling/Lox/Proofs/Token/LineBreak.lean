import Lox.Proofs.Grapheme.Lines
import Lox.Proofs.Source.Relocation
import Lox.Proofs.Token.Lexed
import Lox.Proofs.Token.Lexicon

/-!
# Scanning line by line

A line break belongs to no grapheme but its own, save a line feed behind a carriage return, and to
no lexeme but an open string. So two texts with a line break between them are scanned as each of
them alone, the second one further down.

* `Lexeme.Found.lineBreak`: what is found before a line break is found without it.
* `Piece.cut_lineBreak`: the pieces of the two texts.
* `Lexed.lineFeed`, `Lexed.crlf`: their tokens, if they are read without a report.
* `scanText_lineFeed`: their tokens and reports.
* `scan_line_by_line`: the same in plain words, with the moved places written out.
-/

namespace Lox

/-! ## Lexemes -/

section Lexeme

variable {b : Grapheme} {gs rest : List Grapheme} {reading : Except Cause Token}

/-- A run that the grapheme is not part of ends before it. -/
theorem Grapheme.Run.before {f : Grapheme → Bool} (h : Run f gs rest) (stop : f b = false)
    (more : List Grapheme) : Run f gs (rest ++ b :: more) where
  inside := h.inside
  next := by
    cases rest with
    | nil =>
      rintro _ ⟨⟩
      exact stop
    | cons g rest => exact h.next

/-- A line break continues no word and no number, and is no operator. -/
theorem Grapheme.other_of_isNewline (hb : b.isNewline) :
    b.isAlphanumeric = false ∧ b.isDigit = false ∧ ⟨'=', []⟩ ≠ b ∧ ⟨'/', []⟩ ≠ b ∧
      b ≠ ⟨'.', []⟩ := by
  obtain rfl | rfl := eq_of_isNewline hb
  · decide
  · decide

/-- A lexeme ends before a line break if it ends where the source does, save an open string. -/
theorem Lexeme.lineBreak (hb : b.isNewline) (h : Lexeme gs rest reading)
    (closed : reading ≠ .error .unterminatedString) (more : List Grapheme) :
    Lexeme gs (rest ++ b :: more) reading := by
  obtain ⟨noWord, noDigit, noSign, noSlash, noPoint⟩ := Grapheme.other_of_isNewline hb
  have head {g : Grapheme} (other : g ≠ b) (next : rest.head? ≠ some g) :
      (rest ++ b :: more).head? ≠ some g := by
    cases rest with
    | nil => simpa using Ne.symm other
    | cons g rest => exact next
  cases h with
  | keyword alpha run mem spelled => exact .keyword alpha (run.before noWord more) mem spelled
  | identifier alpha run other => exact .identifier alpha (run.before noWord more) other
  | whole some run next number =>
    -- What stood behind a last point is now the line break, which is no digit.
    refine .whole some (run.before noDigit more) (fun d behind same => ?_) number
    match rest with
    | [] => exact absurd (List.cons.inj same).1 noPoint
    | [_] =>
      obtain ⟨-, rfl, -⟩ := by simpa using same
      exact noDigit
    | g :: e :: rest =>
      obtain ⟨rfl, rfl, -⟩ := by simpa using same
      exact next _ _ rfl
  | fraction some front someBehind run number =>
    exact .fraction some front someBehind (run.before noDigit more) number
  | operator mem text next => exact .operator mem text (head noSign next)
  | operatorEqual mem text spelled => exact .operatorEqual mem text spelled
  | comment run => exact .comment (run.before (by rw [hb]; rfl) more)
  | slash next => exact .slash (head noSlash next)
  | string inside => exact .string inside
  | unterminated => exact absurd rfl closed
  | punctuation mem text => exact .punctuation mem text
  | blank text => exact .blank text

theorem Lexeme.Found.lineBreak (hb : b.isNewline) (h : Lexeme.Found gs rest reading)
    (closed : reading ≠ .error .unterminatedString) (more : List Grapheme) :
    Lexeme.Found gs (rest ++ b :: more) reading := by
  cases h with
  | lexeme h => exact .lexeme (h.lineBreak hb closed more)
  | unexpected none => exact .unexpected none

end Lexeme

namespace Piece

/-- Before a line break pieces are cut as without it, unless a string is left open. -/
theorem cut_lineBreak {b : Grapheme} (hb : b.isNewline) {gs : List Grapheme}
    (closed : ∀ p ∈ cut gs, p.reading ≠ .error .unterminatedString) (hs : List Grapheme) :
    cut (gs ++ b :: hs) = cut gs ++ ⟨b, []⟩ :: cut hs := by
  induction gs using cut.induct with
  | case1 =>
    have ends : Ends ⟨b, []⟩ hs := by
      obtain rfl | rfl := Grapheme.eq_of_isNewline hb <;> rfl
    rw [cut]
    exact cut_of_ends ends
  | case2 lead rest ih =>
    -- The first piece is found before a line break too, so it is cut off there as well.
    rw [cut, List.forall_mem_cons] at closed
    obtain ⟨p, same, first, -⟩ := ((found_of_cut lead rest).lineBreak hb closed.1 hs).exists_piece
    have piece : p = ⟨lead, rest.take (extent lead rest)⟩ := graphemes_inj same
    rw [List.cons_append, ← List.append_assoc, List.take_append_drop, piece, ih closed.2] at first
    rw [cut.eq_2 lead rest]
    exact first

end Piece

/-! ## Tokens -/

namespace Lexed

variable [Segmenter] {cs ds : List Char} {ts us : List Token}

theorem lineBreak (b : Grapheme) (hb : b.isNewline) {blank : Blank}
    (read : Piece.reading ⟨b, []⟩ = .ok (.whitespace blank))
    (last : b = ⟨'\n', []⟩ → cs.getLast? ≠ some '\r') (hc : Lexed cs ts) (hd : Lexed ds us) :
    Lexed (cs ++ (b.chars ++ ds)) (ts ++ .whitespace blank :: us) := by
  have closed : ∀ p ∈ Piece.cut (Segmenter.split cs),
      p.reading ≠ .error .unterminatedString := by
    intro p mem open_
    have token : p.reading ∈ ts.map Except.ok := hc ▸ List.mem_map_of_mem mem
    rw [open_] at token
    obtain ⟨t, -, ⟨⟩⟩ := List.mem_map.mp token
  rw [Lexed, Grapheme.split_lineBreak b hb last, Piece.cut_lineBreak hb closed, List.map_append,
    List.map_cons, List.map_append, List.map_cons, hc, hd, read]

/-- Two texts with a line feed between them are read as each of them alone. -/
theorem lineFeed (last : cs.getLast? ≠ some '\r') (hc : Lexed cs ts) (hd : Lexed ds us) :
    Lexed (cs ++ '\n' :: ds) (ts ++ .whitespace .newline :: us) :=
  lineBreak ⟨'\n', []⟩ rfl rfl (fun _ => last) hc hd

/-- So are two texts with a carriage return and a line feed between them, whatever the first one
ends with. -/
theorem crlf (hc : Lexed cs ts) (hd : Lexed ds us) :
    Lexed (cs ++ '\r' :: '\n' :: ds) (ts ++ .whitespace .crlf :: us) :=
  lineBreak ⟨'\r', ['\n']⟩ rfl rfl nofun hc hd

end Lexed

namespace Source

variable {s t : Source}

/-- Where a location goes when its source is put behind this one, with a line break between them. -/
def below (s : Source) : Location → Location :=
  .below (s.graphemes.countP Grapheme.isNewline + 1) (s.length + 1)

/-- Behind a line break a source starts afresh. -/
theorem advance_endLocation (s : Source) {b : Grapheme} (hb : b.isNewline) :
    s.endLocation.advance b.chars = s.below {} := by
  rw [endLocation, Location.advanceOver_start]
  exact (Location.behind_concat _ _).symm.trans (Location.behind_lineBreak _ hb)

/-- What stands behind a line break is placed as in a source of its own, only further down. -/
theorem pieces_lineBreak {b : Grapheme} (hb : b.isNewline)
    (closed : ∀ p ∈ Piece.cut s.graphemes, p.reading ≠ .error .unterminatedString) :
    pieces ⟨s.graphemes ++ b :: t.graphemes⟩ =
      s.pieces ++ ⟨⟨b, []⟩, ⟨s.endLocation, s.below {}⟩⟩ ::
        t.pieces.map (PlacedPiece.relocate s.below) := by
  have lower : PlacedPiece.place (s.below {}) (Piece.cut t.graphemes) =
      t.pieces.map (PlacedPiece.relocate s.below) := PlacedPiece.place_below {} _
  rw [pieces, Piece.cut_lineBreak hb closed, PlacedPiece.place_append, Piece.flatMap_graphemes_cut,
    ← lower, ← s.advance_endLocation hb]
  rfl

/-- The end of a source behind a line break. -/
theorem endLocation_lineBreak {b : Grapheme} (hb : b.isNewline) :
    endLocation ⟨s.graphemes ++ b :: t.graphemes⟩ = s.below t.endLocation := by
  rw [endLocation, Location.advanceOver_append, Location.advanceOver_cons]
  exact (congrArg (Location.advanceOver · t.graphemes) (s.advance_endLocation hb)).trans
    (Location.advanceOver_below {} _)

theorem endToken_lineBreak {b : Grapheme} (hb : b.isNewline) :
    endToken ⟨s.graphemes ++ b :: t.graphemes⟩ = t.endToken.relocate s.below := by
  rw [endToken, endLocation_lineBreak hb]
  rfl

end Source

/-- Two texts with a line feed between them are scanned as each of them alone, unless the first one
leaves a string open. The second one stands further down. -/
theorem scanText_lineFeed [Segmenter] {a b : String} (h : a.toList.getLast? ≠ some '\r')
    (closed : ∀ d ∈ (scanText a).errors, d.cause ≠ .unterminatedString) :
    let s := Source.ofText a
    scanText (a ++ "\n" ++ b) =
      { tokens := ((scanText a).tokens.filter fun t => !t.isEnd) ++
          ⟨.whitespace .newline, some ⟨s.endLocation, s.below {}⟩⟩ ::
            (scanText b).tokens.map (PlacedToken.relocate s.below)
        errors := (scanText a).errors ++
          (scanText b).errors.map (Diagnostic.relocate s.below) } := by
  intro s
  have shut : ∀ p ∈ Piece.cut s.graphemes, p.reading ≠ .error .unterminatedString := by
    intro p mem reading
    rw [← PlacedPiece.map_piece_place {} (Piece.cut s.graphemes)] at mem
    obtain ⟨q, placed, rfl⟩ := List.mem_map.mp mem
    have reported : (⟨.unterminatedString, some q.span⟩ : Diagnostic) ∈ (scanText a).errors :=
      List.mem_filterMap.mpr ⟨q, placed, PlacedPiece.diagnostic?_eq_some.mpr ⟨reading, rfl⟩⟩
    exact closed _ reported rfl
  have whole : Source.ofText (a ++ "\n" ++ b) =
      ⟨s.graphemes ++ ⟨'\n', []⟩ :: (Source.ofText b).graphemes⟩ := by
    have chars : (a ++ "\n" ++ b).toList = a.toList ++ ('\n' :: b.toList) := by simp
    rw [Source.ofText, Grapheme.split, chars]
    exact congrArg Source.mk
      (Grapheme.split_lineBreak ⟨'\n', []⟩ rfl (fun _ => h) b.toList)
  have tokens : PlacedPiece.token? ∘ PlacedPiece.relocate s.below =
      fun p => p.token?.map (PlacedToken.relocate s.below) :=
    funext (PlacedPiece.token?_relocate s.below)
  have reports : PlacedPiece.diagnostic? ∘ PlacedPiece.relocate s.below =
      fun p => p.diagnostic?.map (Diagnostic.relocate s.below) :=
    funext (PlacedPiece.diagnostic?_relocate s.below)
  have inner : ((scanText a).tokens.filter fun t => !t.isEnd) =
      s.pieces.filterMap PlacedPiece.token? := s.filter_tokens_scan
  have second : (scanText b).tokens = (Source.ofText b).pieces.filterMap PlacedPiece.token? ++
      [(Source.ofText b).endToken] := rfl
  rw [scanText, whole, Source.scan, Source.pieces_lineBreak rfl shut, Source.endToken_lineBreak rfl,
    List.filterMap_append, List.filterMap_append, List.filterMap_cons, List.filterMap_cons,
    List.filterMap_map, List.filterMap_map, tokens, reports, ← List.map_filterMap,
    ← List.map_filterMap, List.append_assoc, inner, second, List.map_append]
  rfl

/-- The tokens of two texts with a line feed between them are those of the first text without its
end, the line feed, and those of the second text, moved down past the line breaks of the first one
and this one, and on past all graphemes that stand before them. The reports follow each other in the
same way. The first text may have any report but that of an open string. -/
theorem scan_line_by_line [Segmenter] (a b : String) (last : a.toList.getLast? ≠ some '\r')
    (closed : ∀ d ∈ (scanText a).errors, d.cause.message ≠ "Unterminated String") :
    let above := Grapheme.split a
    let move (l : Location) : Location :=
      { line := l.line + (above.countP Grapheme.isNewline + 1 : Nat)
        column := l.column
        index := l.index + (above.length + 1 : Nat) }
    (scanText (a ++ "\n" ++ b)).tokens = ((scanText a).tokens.filter fun t => !t.isEnd) ++
        ⟨.whitespace .newline, some ⟨(Source.ofText a).endLocation, move {}⟩⟩ ::
          (scanText b).tokens.map (PlacedToken.relocate move) ∧
      (scanText (a ++ "\n" ++ b)).errors = (scanText a).errors ++
        (scanText b).errors.map (Diagnostic.relocate move) := by
  have shut : ∀ d ∈ (scanText a).errors, d.cause ≠ .unterminatedString := fun d mem same =>
    closed d mem (congrArg Cause.message same)
  have both := scanText_lineFeed (b := b) last shut
  exact ⟨congrArg Scanned.tokens both, congrArg Scanned.errors both⟩

/-- An operator is not put together across a line feed, and what is reported on both lines is
reported at its place. -/
theorem scan_line_by_line_operator :
    "# 1.!".toList.getLast? ≠ some '\r' ∧
      (∀ d ∈ (scanText "# 1.!").errors, d.cause.message ≠ "Unterminated String") ∧
      (scanText ("# 1.!" ++ "\n" ++ "= \"")).tokens =
        [⟨.whitespace .space, some ⟨⟨1, 2, 1⟩, ⟨1, 3, 2⟩⟩⟩,
          ⟨.number 1, some ⟨⟨1, 3, 2⟩, ⟨1, 4, 3⟩⟩⟩, ⟨.mark .dot, some ⟨⟨1, 4, 3⟩, ⟨1, 5, 4⟩⟩⟩,
          ⟨.mark .bang, some ⟨⟨1, 5, 4⟩, ⟨1, 6, 5⟩⟩⟩,
          ⟨.whitespace .newline, some ⟨⟨1, 6, 5⟩, ⟨2, 1, 6⟩⟩⟩,
          ⟨.mark .equal, some ⟨⟨2, 1, 6⟩, ⟨2, 2, 7⟩⟩⟩,
          ⟨.whitespace .space, some ⟨⟨2, 2, 7⟩, ⟨2, 3, 8⟩⟩⟩,
          ⟨.mark .endOfFile, some ⟨⟨2, 4, 9⟩, ⟨2, 4, 9⟩⟩⟩] ∧
      (scanText ("# 1.!" ++ "\n" ++ "= \"")).errors =
        [⟨.unexpectedCharacter ⟨'#', []⟩, some ⟨⟨1, 1, 0⟩, ⟨1, 2, 1⟩⟩⟩,
          ⟨.unterminatedString, some ⟨⟨2, 3, 8⟩, ⟨2, 4, 9⟩⟩⟩] := by
  have last : "# 1.!".toList.getLast? ≠ some '\r' := by decide +kernel
  have closed : ∀ d ∈ (scanText "# 1.!").errors, d.cause.message ≠ "Unterminated String" := by
    decide +kernel
  obtain ⟨tokens, errors⟩ := scan_line_by_line "# 1.!" "= \"" last closed
  exact ⟨last, closed, tokens.trans (by decide +kernel), errors.trans (by decide +kernel)⟩

end Lox
