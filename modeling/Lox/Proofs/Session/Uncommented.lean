import Lox.Proofs.Session.Effects
import Lox.Proofs.Syntax.Lockstep
import Lox.Proofs.Token.Comments

/-!
# Comments are invisible

A text without faults that scanning would find, and the same text with its comments taken out, are
run alike: they print the same, leave the same names, and report the same in the same lines and
columns. Only the end of a text that ends in a comment moves within its line.

* `uncommented`: a text with its comments taken out.
* `exists_moves_uncommented`: how that moves the tokens of the text.
* `run_relocate`: a text that is parsed into the statements of another one, at other places, does
  the same and reports its own places.
* `run_uncommented`: the main statement.
-/

namespace Lox

/-! ## Texts without their comments -/

/-- The text of a source that is in the tokens. -/
def Source.textIn (s : Source) (ts : List PlacedToken) : String :=
  String.join (ts.map fun t => (t.span.map s.textOf).getD "")

/-- The text with its comments taken out: what is in its other tokens. All its tokens together hold
all of it: `Source.join_textOf_stretches`. -/
def uncommented [Segmenter] (text : String) : String :=
  (Source.ofText text).textIn (withoutComments (scanText text).tokens)

/-- A text is scanned without a report just if all its pieces are tokens. -/
theorem errors_scanText_eq_nil [Segmenter] {text : String} : (scanText text).errors = [] ↔
    ∀ p ∈ Piece.cut (Grapheme.split text), p.IsLegible := by
  have pieces : (Source.ofText text).pieces.map PlacedPiece.piece =
      Piece.cut (Grapheme.split text) := PlacedPiece.map_piece_place _ _
  have silent (q : PlacedPiece) : q.diagnostic? = none ↔ q.piece.IsLegible := by
    cases reading : q.piece.reading <;> simp [PlacedPiece.diagnostic?, Piece.IsLegible, reading]
  rw [← pieces, List.forall_mem_map]
  simp only [← silent]
  exact List.filterMap_eq_nil_iff

theorem Source.textIn_append (s : Source) (ts us : List PlacedToken) :
    s.textIn (ts ++ us) = s.textIn ts ++ s.textIn us := by
  simp [textIn, String.join_append]

/-- Nothing is in the end of a source. -/
theorem Source.textIn_endToken (s : Source) : s.textIn [s.endToken] = "" := by
  have none : s.slice ⟨s.endLocation, s.endLocation⟩ = [] := by simp [slice]
  simp [textIn, endToken, textOf, none, Grapheme.join]

/-- What is in the token of a piece of a source, save comments. -/
theorem toList_textIn_piece {s : Source} {p : PlacedPiece} (h : p ∈ s.pieces)
    (legible : p.piece.IsLegible) :
    (s.textIn (withoutComments ([p].filterMap PlacedPiece.token?))).toList =
      Piece.uncommented [p.piece] := by
  obtain ⟨t, reading⟩ := legible
  have token : p.token? = some ⟨t, some p.span⟩ := PlacedPiece.token?_eq_some.mpr ⟨reading, rfl⟩
  have comment : p.piece.isComment = (t.kind == .comment) := Piece.isComment_eq reading
  have text : s.textIn [⟨t, some p.span⟩] = p.piece.text := by
    simp [Source.textIn, s.textOf_span h]
  rw [List.filterMap_cons_some token, List.filterMap_nil, withoutComments, List.filter_singleton,
    Piece.uncommented, List.filter_singleton, comment,
    show (PlacedToken.kind ⟨t, some p.span⟩ != .comment) = !(t.kind == .comment) from rfl]
  cases t.kind == .comment
  · simp [text, Piece.text, Grapheme.join]
  · rfl

/-- What is in the tokens of pieces of a source, save comments. -/
theorem toList_textIn {s : Source} {ps : List PlacedPiece} (h : ∀ p ∈ ps, p ∈ s.pieces)
    (legible : ∀ p ∈ ps, p.piece.IsLegible) :
    (s.textIn (withoutComments (ps.filterMap PlacedPiece.token?))).toList =
      Piece.uncommented (ps.map PlacedPiece.piece) := by
  induction ps with
  | nil => rfl
  | cons p ps ih =>
    rw [List.forall_mem_cons] at h legible
    have first := toList_textIn_piece h.1 legible.1
    rw [← List.singleton_append, List.filterMap_append, withoutComments, List.filter_append,
      ← withoutComments, ← withoutComments, Source.textIn_append, String.toList_append, first,
      ih h.2 legible.2, List.map_append, Piece.uncommented_append]
    rfl

theorem toList_uncommented [Segmenter] {text : String} (scanned : (scanText text).errors = []) :
    (uncommented text).toList = Piece.uncommented (Piece.cut (Grapheme.split text)) := by
  let s := Source.ofText text
  have pieces : s.pieces.map PlacedPiece.piece = Piece.cut (Grapheme.split text) :=
    PlacedPiece.map_piece_place _ _
  have legible := errors_scanText_eq_nil.mp scanned
  rw [← pieces, List.forall_mem_map] at legible
  rw [← pieces, ← toList_textIn (fun p mem => mem) legible]
  have ended : withoutComments (scanText text).tokens =
      withoutComments (s.pieces.filterMap PlacedPiece.token?) ++ [s.endToken] := by
    rw [scanText, Source.scan, withoutComments, List.filter_append]
    rfl
  rw [uncommented, ended, Source.textIn_append, s.textIn_endToken, String.append_empty]

theorem exists_moves_uncommented [Segmenter] {text : String}
    (scanned : (scanText text).errors = []) :
    ∃ f, (Source.ofText text).Moves (Source.ofText (uncommented text)) f := by
  rw [Source.ofText, Source.ofText, Grapheme.split, Grapheme.split, toList_uncommented scanned]
  exact Source.exists_moves (Grapheme.clusters_split _) (errors_scanText_eq_nil.mp scanned)

/-! ## Runs -/

/-- The parser sees neither comments nor white space. -/
theorem parse_seen [Segmenter] (text : String) (limit : Int) :
    parse (withoutComments (scanText text).tokens) limit =
      parse (Source.ofText text).seen limit := by
  have same : TokenStream.ofTokens (withoutComments (scanText text).tokens) =
      TokenStream.ofTokens (Source.ofText text).seen := by
    simp only [TokenStream.ofTokens, withoutComments, Source.seen, List.filter_filter, scanText]
    congr 2
    funext t
    simp [Token.isSeen, Token.isInk, PlacedToken.kind]
  rw [parse, parse, same]

/-- A text that is parsed into the statements and reports of another one, at other places, does the
same and reports its own places. -/
theorem run_relocate [Segmenter] [Stack] {text text' : String} {limit : Int} {p : Parsed}
    (f : Location → Location)
    (scanned : (scanText text).errors = []) (scanned' : (scanText text').errors = [])
    (parsed : parse (withoutComments (scanText text).tokens) limit = .ok p)
    (parsed' : parse (withoutComments (scanText text').tokens) limit = .ok (p.relocate f))
    (globals : Bindings) :
    let r := run globals text limit
    let r' := run globals text' limit
    r'.output = r.output ∧ r'.globals = r.globals ∧ r'.ending = r.ending.relocate f := by
  intro r r'
  by_cases read : p.errors = []
  · obtain ⟨statements, errors⟩ := p
    obtain rfl : errors = [] := read
    have reads : ReadsAs text limit statements := ⟨scanned, parsed⟩
    have reads' : ReadsAs text' limit (statements.map (Stmt.relocate f)) := ⟨scanned', parsed'⟩
    obtain ⟨output, names, ending⟩ := reads.run globals
    obtain ⟨output', names', ending'⟩ := reads'.run globals
    rw [execute_relocate] at output' names' ending'
    rw [Ending.ofFailure_relocate, ← ending] at ending'
    exact ⟨output'.trans output.symm, names'.trans names.symm, ending'⟩
  · have read' : (p.relocate f).errors ≠ [] := mt List.map_eq_nil_iff.mp read
    have stops : r = ⟨[], globals, .stopped .parse p.errors,
        [(scanText text).event, p.event]⟩ := by
      simp [r, run, scanned, parsed, read]
    have stops' : r' = ⟨[], globals, .stopped .parse (p.relocate f).errors,
        [(scanText text').event, (p.relocate f).event]⟩ := by
      simp [r', run, scanned', parsed', read']
    rw [stops, stops']
    exact ⟨rfl, rfl, rfl⟩

/-- A report whose place keeps its line and column is shown alike. -/
theorem Diagnostic.text_relocate {f : Location → Location} {d : Diagnostic}
    (h : ∀ a ∈ d.span, (f a.start).line = a.start.line ∧ (f a.start).column = a.start.column) :
    (d.relocate f).text = d.text := by
  obtain ⟨cause, _ | a⟩ := d
  · rfl
  · obtain ⟨line, column⟩ := h a rfl
    simp only [text, relocate, Option.map_some, Span.relocate, line, column]
    rfl

/-- A text that is scanned without a report is run as without its comments: that is scanned without
a report too, into the same tokens other than comments and white space, at the same lines and
columns; and it prints the same, leaves the same names and ends with the same reports. Only the end
of a text that ends in a comment may be in another column. -/
theorem run_uncommented [Segmenter] [Stack] {text : String}
    (scanned : (scanText text).errors = []) :
    let s := Source.ofText text
    (scanText (uncommented text)).errors = [] ∧
    ∃ f : Location → Location,
      (Source.ofText (uncommented text)).seen = s.seen.map (PlacedToken.relocate f) ∧
      (∀ l, (f l).line = l.line) ∧
      (∀ t ∈ s.seen, t.isEnd = false ∨ ¬ s.EndsInComment → ∀ a ∈ t.span,
        (f a.start).column = a.start.column ∧ (f a.stop).column = a.stop.column) ∧
      ∀ (globals : Bindings) (limit : Int),
        let r := run globals text limit
        let r' := run globals (uncommented text) limit
        r'.output = r.output ∧ r'.globals = r.globals ∧ r'.ending = r.ending.relocate f ∧
        ∀ d ∈ r.ending.errors, (∀ a ∈ d.span, a.start ≠ s.endLocation) ∨ ¬ s.EndsInComment →
          (d.relocate f).text = d.text := by
  intro s
  obtain ⟨f, moves⟩ := exists_moves_uncommented scanned
  have scanned' : (scanText (uncommented text)).errors = [] :=
    errors_scanText_eq_nil.mpr moves.legible
  refine ⟨scanned', f, moves.seen, moves.line, ?_, fun globals limit => ?_⟩
  · intro t mem kept a span
    rw [s.seen_eq, List.mem_append, List.mem_singleton] at mem
    by_cases ends : s.EndsInComment
    · have inside : t ∈ PlacedPiece.seen s.pieces := mem.resolve_right fun same =>
        absurd (same ▸ kept.resolve_right (not_not_intro ends)) nofun
      obtain ⟨start, stop⟩ := ends.before inside span
      exact ⟨moves.column _ (.inl start), moves.column _ (.inl stop)⟩
    · exact ⟨moves.column _ (.inr ends), moves.column _ (.inr ends)⟩
  obtain ⟨p, parsed, -⟩ := exists_evaluable text limit
  have placed : ∀ t ∈ s.seen, t.span.isSome :=
    fun t mem => span_isSome_of_mem_scan (List.mem_filter.mp mem).1
  have ended : ∃ t ∈ s.seen, t.isEnd := ⟨s.endToken, by simp [s.seen_eq], rfl⟩
  have parsed' := parse_relocate f placed ended (parse_seen text limit ▸ parsed)
  rw [← moves.seen, ← parse_seen] at parsed'
  obtain ⟨output, names, ending⟩ := run_relocate f scanned scanned' parsed parsed' globals
  exact ⟨output, names, ending, fun d mem kept => Diagnostic.text_relocate fun a span =>
    ⟨moves.line _, moves.column _ (kept.imp_left fun h => h a span)⟩⟩

/-- A comment between a carriage return and a line feed, which make one line break without it. -/
theorem run_uncommented_crlf :
    let text := "print nil;\r// one\ny;// two"
    (scanText text).errors = [] ∧ uncommented text = "print nil;\r\ny;" ∧
      (run {} (uncommented text) 48).output = ["Nil"] ∧
      (run {} (uncommented text) 48).ending.errors.map Diagnostic.text =
        ["[line: 2, col: 1] Runtime Error (Undefined variable): y"] := by
  intro text
  have scanned : (scanText text).errors = [] := by decide +kernel
  obtain ⟨-, f, -, -, -, same⟩ := run_uncommented scanned
  obtain ⟨output, -, ending, shown⟩ := same {} 48
  let y : Diagnostic := ⟨.undefinedVariable "y", some ⟨⟨2, 1, 18⟩, ⟨2, 2, 19⟩⟩⟩
  have stopped : (run {} text 48).ending = .stopped .runtime [y] := by decide +kernel
  rw [stopped] at ending shown
  refine ⟨scanned, by decide +kernel, output.trans (by decide +kernel), ?_⟩
  rw [ending]
  have alike := shown y (List.mem_singleton_self _) (.inl (by decide +kernel))
  exact congrArg ([·]) (alike.trans (by decide +kernel))

end Lox
