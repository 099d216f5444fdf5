import Lox.Proofs.Token.Display

/-!
# Sources without their comments

A comment goes up to a line break or the end of the source, so what stands in front of it ends there
anyway, and what stands behind it starts afresh. Taking all comments out of a source leaves the
other tokens as they are: in their order, in their lines and in their columns. Only the end of a
source that ends in a comment moves within its line.

* `Piece.uncommented`: the code points of pieces, save those of comments.
* `Source.seen`: the tokens of a source that the parser sees.
* `exists_lineBreak`: a line break behind a source may take a carriage return out of it.
* `Source.Moves`: moving locations keeps lines, and columns save that of an end behind a comment.
* `exists_moves`: the main statement.
-/

namespace Lox

/-! ## Comments -/

namespace Piece

/-- The piece is a comment. -/
def isComment (p : Piece) : Bool :=
  match p.reading with
  | .ok (.comment _) => true
  | _ => false

theorem isComment_iff {p : Piece} : p.isComment ↔ ∃ c, p.reading = .ok (.comment c) := by
  unfold isComment
  split <;> simp_all

theorem isComment_eq {p : Piece} {t : Token} (h : p.reading = .ok t) :
    p.isComment = (t.kind == .comment) := by
  rw [isComment, h]
  cases t <;> rfl

/-- The piece is a token that the parser does not see. -/
def IsHidden (p : Piece) : Prop := ∃ t, p.reading = .ok t ∧ t.isSeen = false

theorem isHidden_of_isComment {p : Piece} (h : p.isComment) : p.IsHidden := by
  obtain ⟨c, reading⟩ := isComment_iff.mp h
  exact ⟨_, reading, rfl⟩

theorem isHidden_of_isNewline {b : Grapheme} (hb : b.isNewline) : IsHidden ⟨b, []⟩ := by
  obtain rfl | rfl := Grapheme.eq_of_isNewline hb
  · exact ⟨.whitespace .newline, rfl, rfl⟩
  · exact ⟨.whitespace .crlf, rfl, rfl⟩

/-- The piece is a token. -/
def IsLegible (p : Piece) : Prop := ∃ t, p.reading = .ok t

theorem IsLegible.closed {p : Piece} (h : p.IsLegible) :
    p.reading ≠ .error .unterminatedString := by
  obtain ⟨t, reading⟩ := h
  rw [reading]
  nofun

/-- The code points of the pieces, save those of comments. -/
def uncommented (ps : List Piece) : List Char :=
  (ps.filter fun p => !p.isComment).flatMap fun p => p.graphemes.flatMap Grapheme.chars

theorem uncommented_append (ps qs : List Piece) :
    uncommented (ps ++ qs) = uncommented ps ++ uncommented qs := by
  simp [uncommented]

theorem uncommented_eq {ps : List Piece} (h : ∀ p ∈ ps, p.isComment = false) :
    uncommented ps = (ps.flatMap graphemes).flatMap Grapheme.chars := by
  rw [uncommented, List.filter_eq_self.mpr fun p mem => by simp [h p mem], List.flatMap_assoc]

theorem uncommented_cons {c : Piece} (h : c.isComment) (ps : List Piece) :
    uncommented (c :: ps) = uncommented ps := by
  simp [uncommented, h]

theorem uncommented_lineBreak {b : Grapheme} (hb : b.isNewline) (ps : List Piece) :
    uncommented (⟨b, []⟩ :: ps) = b.chars ++ uncommented ps := by
  have comment : isComment ⟨b, []⟩ = false := by
    obtain rfl | rfl := Grapheme.eq_of_isNewline hb <;> rfl
  simp [uncommented, comment, graphemes]

/-- A comment holds no line break, and none but a line break stands behind it. -/
theorem comment_behind {c : Piece} {rest : List Grapheme}
    (found : Lexeme.Found c.graphemes rest c.reading) (h : c.isComment) :
    (∀ g ∈ c.graphemes, g.isNewline = false) ∧ ∀ g ∈ rest.head?, g.isNewline := by
  obtain ⟨text, reading⟩ := isComment_iff.mp h
  rw [reading] at found
  generalize c.graphemes = gs at found
  cases found with
  | lexeme lexeme =>
    cases lexeme with
    | comment run =>
      refine ⟨?_, fun g mem => by simpa using run.next g mem⟩
      simp only [List.forall_mem_cons]
      exact ⟨rfl, rfl, fun g mem => by simpa using run.inside g mem⟩

theorem countP_of_isComment {c : Piece} {rest : List Grapheme}
    (found : Lexeme.Found c.graphemes rest c.reading) (h : c.isComment) :
    c.graphemes.countP Grapheme.isNewline = 0 :=
  List.countP_eq_zero.mpr fun g mem => Bool.eq_false_iff.mp ((comment_behind found h).1 g mem)

/-- Pieces up to the first comment, if there is one. -/
theorem exists_first_comment (ps : List Piece) : (∀ p ∈ ps, p.isComment = false) ∨
    ∃ before c after, ps = before ++ c :: after ∧ c.isComment ∧
      ∀ p ∈ before, p.isComment = false := by
  cases found : ps.find? isComment with
  | none => exact .inl fun p mem => by simpa using List.find?_eq_none.mp found p mem
  | some c =>
    obtain ⟨comment, before, after, split, others⟩ := List.find?_eq_some_iff_append.mp found
    exact .inr ⟨before, c, after, split, comment, fun p mem => by simpa using others p mem⟩

end Piece

/-- No lexeme but a comment ends in a carriage return and holds more than that. -/
theorem Lexeme.eq_of_getLast? {gs rest : List Grapheme} {t : Token} (h : Lexeme gs rest (.ok t))
    (last : gs.getLast? = some ⟨'\r', []⟩) : t.kind = .comment ∨ gs = [⟨'\r', []⟩] := by
  have among : ⟨'\r', []⟩ ∈ gs := List.mem_of_getLast? last
  have noWord : (⟨'\r', []⟩ : Grapheme).isAlphanumeric = false := by decide
  have noDigit : (⟨'\r', []⟩ : Grapheme).isDigit = false := by decide
  cases h with
  | keyword alpha run | identifier alpha run =>
    obtain rfl | inside := List.mem_cons.mp among
    · rw [Grapheme.isAlphanumeric, alpha] at noWord
      cases noWord
    · cases noWord.symm.trans (run.inside _ inside)
  | whole _ run => cases noDigit.symm.trans (run.inside _ among)
  | fraction _ front _ run =>
    obtain inside | inside := List.mem_append.mp among
    · cases noDigit.symm.trans (front _ inside)
    obtain point | inside := List.mem_cons.mp inside
    · cases point
    · cases noDigit.symm.trans (run.inside _ inside)
  | comment => exact .inl rfl
  | operatorEqual | slash => cases last
  | string =>
    rw [List.getLast?_concat] at last
    cases last
  | operator | punctuation | blank =>
    cases last
    exact .inr rfl

/-! ## What is seen of a source -/

/-- The tokens among pieces that the parser sees. -/
def PlacedPiece.seen (ps : List PlacedPiece) : List PlacedToken :=
  (ps.filterMap token?).filter fun t => t.token.isSeen

/-- The tokens of a source that the parser sees, the end among them. -/
def Source.seen (s : Source) : List PlacedToken := s.scan.tokens.filter fun t => t.token.isSeen

/-- The source ends in a comment. -/
def Source.EndsInComment (s : Source) : Prop := ∃ p ∈ (Piece.cut s.graphemes).getLast?, p.isComment

namespace PlacedPiece

theorem seen_append (ps qs : List PlacedPiece) : seen (ps ++ qs) = seen ps ++ seen qs := by
  simp [seen]

theorem seen_relocate (f : Location → Location) (ps : List PlacedPiece) :
    seen (ps.map (relocate f)) = (seen ps).map (PlacedToken.relocate f) := by
  have tokens : token? ∘ relocate f = fun p => p.token?.map (PlacedToken.relocate f) :=
    funext (token?_relocate f)
  rw [seen, seen, List.filterMap_map, tokens, ← List.map_filterMap, List.filter_map]
  rfl

theorem seen_cons {p : PlacedPiece} (h : p.piece.IsHidden) (ps : List PlacedPiece) :
    seen (p :: ps) = seen ps := by
  obtain ⟨t, reading, hidden⟩ := h
  have token : p.token? = some ⟨t, some p.span⟩ := token?_eq_some.mpr ⟨reading, rfl⟩
  rw [seen, List.filterMap_cons_some token, List.filter_cons_of_neg (by simp [hidden]), seen]

end PlacedPiece

namespace Source

variable {s : Source} {p : Piece}

theorem seen_eq (s : Source) : s.seen = PlacedPiece.seen s.pieces ++ [s.endToken] := by
  rw [seen, scan, List.filter_append]
  rfl

/-- What is seen of a source with a line break in it: what is seen before, then what is behind. -/
theorem seen_lineBreak {t : Source} {b : Grapheme} (hb : b.isNewline)
    (legible : ∀ p ∈ Piece.cut s.graphemes, p.IsLegible) :
    seen ⟨s.graphemes ++ b :: t.graphemes⟩ =
      PlacedPiece.seen s.pieces ++ t.seen.map (PlacedToken.relocate s.below) := by
  rw [seen_eq, pieces_lineBreak hb fun p mem => (legible p mem).closed, endToken_lineBreak hb,
    PlacedPiece.seen_append, PlacedPiece.seen_cons (Piece.isHidden_of_isNewline hb),
    PlacedPiece.seen_relocate, t.seen_eq, List.map_append, List.append_assoc]
  rfl

/-- Nothing is seen of a hidden piece at the end of a source. -/
theorem seen_pieces_concat {ps : List Piece} (h : Piece.cut s.graphemes = ps ++ [p])
    (hidden : p.IsHidden) :
    PlacedPiece.seen s.pieces = PlacedPiece.seen (pieces ⟨ps.flatMap Piece.graphemes⟩) := by
  rw [pieces, h, PlacedPiece.place_append, PlacedPiece.seen_append, pieces, Piece.cut_front h]
  exact (congrArg _ (PlacedPiece.seen_cons hidden [])).trans (List.append_nil _)

/-- What is seen of a source lies in it. -/
theorem places_of_mem_seen {t : PlacedToken} (h : t ∈ PlacedPiece.seen s.pieces) :
    ∃ a, t.span = some a ∧ 0 ≤ a.start.index ∧ a.start.index < a.stop.index ∧
      a.stop.index ≤ s.length := by
  obtain ⟨q, mem, token⟩ := List.mem_filterMap.mp (List.mem_filter.mp h).1
  obtain ⟨i, j, hij, hj, span⟩ := s.places_of_mem_pieces mem
  refine ⟨q.span, (PlacedPiece.token?_eq_some.mp token).2, ?_⟩
  rw [span]
  simp only [index_locate hj, index_locate (hij.le.trans hj)]
  omega

theorem nonneg_of_mem_seen {t : PlacedToken} (h : t ∈ s.seen) {a : Span} (span : t.span = some a) :
    0 ≤ a.start.index ∧ 0 ≤ a.stop.index := by
  rw [seen_eq, List.mem_append, List.mem_singleton] at h
  obtain h | rfl := h
  · obtain ⟨b, same, first, order, -⟩ := places_of_mem_seen h
    obtain rfl := Option.some.inj (span.symm.trans same)
    exact ⟨first, first.trans order.le⟩
  · obtain rfl := Option.some.inj span
    simp only [index_endLocation]
    omega

end Source

/-! ## Line breaks behind a source -/

/-- Where no comment is, a carriage return at the end is a piece of its own. -/
theorem exists_return_piece {front : List Grapheme}
    (inked : ∀ p ∈ Piece.cut (front ++ [⟨'\r', []⟩]), p.IsLegible ∧ p.isComment = false) :
    ∃ ps, Piece.cut (front ++ [⟨'\r', []⟩]) = ps ++ [⟨⟨'\r', []⟩, []⟩] := by
  have whole := Piece.flatMap_graphemes_cut (front ++ [⟨'\r', []⟩])
  obtain none | ⟨ps, p, split⟩ := List.eq_nil_or_concat' (Piece.cut (front ++ [⟨'\r', []⟩]))
  · rw [none] at whole
    simp at whole
  refine ⟨ps, ?_⟩
  have mem : p ∈ Piece.cut (front ++ [⟨'\r', []⟩]) := by simp [split]
  obtain ⟨⟨t, reading⟩, noComment⟩ := inked p mem
  obtain ⟨rest, lexeme⟩ := Piece.exists_lexeme mem reading
  have last : p.graphemes.getLast? = some ⟨'\r', []⟩ := by
    rw [split, List.flatMap_append, List.flatMap_singleton] at whole
    have ends := congrArg List.getLast? whole
    rwa [List.getLast?_append_of_ne_nil _ (show p.graphemes ≠ [] from List.cons_ne_nil _ _),
      List.getLast?_concat] at ends
  obtain comment | alone := lexeme.eq_of_getLast? last
  · cases t with
    | comment c =>
      rw [Piece.isComment_iff.mpr ⟨c, reading⟩] at noComment
      cases noComment
    | _ => cases comment
  · rw [split, Piece.graphemes_inj (q := ⟨⟨'\r', []⟩, []⟩) alone]

/-- A source with a line break behind it is a source with a line break behind it that is a cluster
of its own: a line feed takes the carriage return in front of it. Nothing else changes. -/
theorem exists_lineBreak [Segmenter] {gs : List Grapheme} {b : Grapheme} (hb : b.isNewline)
    (clusters : Grapheme.Clusters gs)
    (inked : ∀ p ∈ Piece.cut gs, p.IsLegible ∧ p.isComment = false) :
    ∃ hs d, d.isNewline ∧
      hs.flatMap Grapheme.chars ++ d.chars = gs.flatMap Grapheme.chars ++ b.chars ∧
      (∀ ds, Segmenter.split (hs.flatMap Grapheme.chars ++ (d.chars ++ ds)) =
        hs ++ d :: Segmenter.split ds) ∧
      hs.countP Grapheme.isNewline = gs.countP Grapheme.isNewline ∧
      (∀ p ∈ Piece.cut hs, p ∈ Piece.cut gs) ∧
      PlacedPiece.seen (Source.pieces ⟨hs⟩) = PlacedPiece.seen (Source.pieces ⟨gs⟩) := by
  by_cases joins : b = ⟨'\n', []⟩ ∧ (gs.flatMap Grapheme.chars).getLast? = some '\r'
  · obtain ⟨rfl, last⟩ := joins
    obtain ⟨front, rfl⟩ := clusters.exists_concat last
    obtain ⟨ps, split⟩ := exists_return_piece inked
    have same : ps.flatMap Piece.graphemes = front := by
      have whole := Piece.flatMap_graphemes_cut (front ++ [⟨'\r', []⟩])
      rw [split, List.flatMap_append] at whole
      exact List.append_cancel_right whole
    have shorter : Piece.cut front = ps := same ▸ Piece.cut_front split
    have seen := Source.seen_pieces_concat (s := ⟨front ++ [⟨'\r', []⟩]⟩) split
      ⟨.whitespace .carriageReturn, rfl, rfl⟩
    rw [same] at seen
    refine ⟨front, ⟨'\r', ['\n']⟩, rfl, by simp [Grapheme.chars], fun ds => ?_, ?_, ?_, seen.symm⟩
    · rw [Grapheme.split_lineBreak ⟨'\r', ['\n']⟩ rfl (absurd · (by decide)),
        (clusters.part (List.prefix_append ..).isInfix).split_eq]
    · rw [List.countP_append]
      rfl
    · rw [split, shorter]
      exact fun p mem => List.mem_append_left _ mem
  · refine ⟨gs, b, hb, rfl, fun ds => ?_, rfl, fun p mem => mem, rfl⟩
    rw [Grapheme.split_lineBreak b hb fun feed last => joins ⟨feed, last⟩,
      clusters.split_eq]

/-! ## Moving -/

namespace Source

/-- Moving locations so takes what is seen of one source to what is seen of the other. It keeps
lines, and columns save that of an end behind a comment. -/
structure Moves (s t : Source) (f : Location → Location) : Prop where
  legible : ∀ p ∈ Piece.cut t.graphemes, p.IsLegible
  seen : t.seen = s.seen.map (PlacedToken.relocate f)
  line : ∀ l, (f l).line = l.line
  column : ∀ l, l ≠ s.endLocation ∨ ¬ s.EndsInComment → (f l).column = l.column

variable {gs : List Grapheme}

/-- A source without comments is left as it is. -/
theorem moves_of_none [Segmenter] (clusters : Grapheme.Clusters gs)
    (legible : ∀ p ∈ Piece.cut gs, p.IsLegible) (none : ∀ p ∈ Piece.cut gs, p.isComment = false) :
    Moves ⟨gs⟩ ⟨Segmenter.split (Piece.uncommented (Piece.cut gs))⟩ id := by
  have same : Segmenter.split (Piece.uncommented (Piece.cut gs)) = gs := by
    rw [Piece.uncommented_eq none, Piece.flatMap_graphemes_cut,
      clusters.split_eq]
  rw [same]
  exact ⟨legible, by simp, fun _ => rfl, fun _ _ => rfl⟩

/-- What is seen of a source that ends in a comment stands before the comment. -/
theorem EndsInComment.before {s : Source} (ends : s.EndsInComment) {t : PlacedToken}
    (h : t ∈ PlacedPiece.seen s.pieces) {a : Span} (span : t.span = some a) :
    a.start ≠ s.endLocation ∧ a.stop ≠ s.endLocation := by
  obtain ⟨c, last, comment⟩ := ends
  obtain ⟨ps, split⟩ := List.getLast?_eq_some_iff.mp last
  have whole := Piece.flatMap_graphemes_cut s.graphemes
  rw [split, List.flatMap_append, List.flatMap_singleton] at whole
  have shorter : (ps.flatMap Piece.graphemes).length < s.length := by
    rw [Source.length, ← whole, List.length_append]
    exact Nat.lt_add_of_pos_right (Nat.succ_pos _)
  rw [seen_pieces_concat split (Piece.isHidden_of_isComment comment)] at h
  obtain ⟨b, same, -, order, within⟩ := places_of_mem_seen h
  obtain rfl := Option.some.inj (span.symm.trans same)
  have far := s.index_endLocation
  simp only [Source.length] at *
  refine ⟨fun ends => ?_, fun ends => ?_⟩
  · have index := congrArg Location.index ends
    omega
  · have index := congrArg Location.index ends
    omega

/-- A source that ends in its only comment ends where the comment starts. -/
theorem exists_moves_of_last [Segmenter] {ps : List Piece} {c : Piece}
    (clusters : Grapheme.Clusters gs) (legible : ∀ p ∈ Piece.cut gs, p.IsLegible)
    (split : Piece.cut gs = ps ++ [c]) (comment : c.isComment)
    (none : ∀ p ∈ ps, p.isComment = false) :
    ∃ f, Moves ⟨gs⟩ ⟨Segmenter.split (Piece.uncommented (Piece.cut gs))⟩ f := by
  have whole := Piece.flatMap_graphemes_cut gs
  rw [split, List.flatMap_append, List.flatMap_singleton] at whole
  obtain ⟨found, -⟩ := Piece.found_of_cut_eq_cons (Piece.cut_back split)
  have shorter := Piece.cut_front split
  have left : Segmenter.split (Piece.uncommented (Piece.cut gs)) =
      ps.flatMap Piece.graphemes := by
    rw [split, Piece.uncommented_append, Piece.uncommented_cons comment, Piece.uncommented_eq none]
    refine (congrArg _ (List.append_nil _)).trans (Grapheme.Clusters.split_eq ?_)
    exact clusters.part (whole ▸ (List.prefix_append ..).isInfix)
  have ends : EndsInComment ⟨gs⟩ := ⟨c, by simp [split], comment⟩
  let f (l : Location) : Location :=
    if l = endLocation ⟨gs⟩ then endLocation ⟨ps.flatMap Piece.graphemes⟩ else l
  refine ⟨f, ?_, ?_, fun l => ?_, fun l kept => ?_⟩
  · rw [left, shorter]
    exact fun p mem => legible p (by simp [split, mem])
  · have unmoved : (PlacedPiece.seen (pieces ⟨gs⟩)).map (PlacedToken.relocate f) =
        PlacedPiece.seen (pieces ⟨gs⟩) :=
      PlacedToken.map_relocate_eq_self fun t mem a span =>
        (ends.before mem span).imp (if_neg ·) (if_neg ·)
    have stop : (endToken ⟨gs⟩).relocate f = endToken ⟨ps.flatMap Piece.graphemes⟩ := by
      simp [endToken, PlacedToken.relocate, Span.relocate, f]
    rw [left, seen_eq, seen_eq, List.map_append, unmoved, List.map_singleton, stop,
      seen_pieces_concat split (Piece.isHidden_of_isComment comment)]
  · by_cases ended : l = endLocation ⟨gs⟩
    · have breaks := Piece.countP_of_isComment found comment
      have moved : f l = endLocation ⟨ps.flatMap Piece.graphemes⟩ := if_pos ended
      rw [moved, ended, line_endLocation, line_endLocation]
      simp only [← whole, List.countP_append, breaks, Nat.add_zero]
    · exact congrArg Location.line (if_neg ended)
  · exact congrArg Location.column (if_neg (kept.resolve_right (not_not_intro ends)))

/-- The way back from behind a source and a line break. -/
def above (s : Source) : Location → Location :=
  .above (s.graphemes.countP Grapheme.isNewline + 1) (s.length + 1)

@[simp] theorem above_below (s : Source) (l : Location) : s.above (s.below l) = l :=
  Location.above_below l

@[simp] theorem below_above (s : Source) (l : Location) : s.below (s.above l) = l :=
  Location.below_above l

/-- A source that ends in a comment does so behind a line break, too. -/
theorem EndsInComment.behind {b : Grapheme} {upper lower : Source} (hb : b.isNewline)
    (legible : ∀ p ∈ Piece.cut upper.graphemes, p.IsLegible) (h : lower.EndsInComment) :
    EndsInComment ⟨upper.graphemes ++ b :: lower.graphemes⟩ := by
  obtain ⟨p, last, comment⟩ := h
  refine ⟨p, ?_, comment⟩
  rw [Piece.cut_lineBreak hb fun p mem => (legible p mem).closed, List.append_cons]
  exact List.mem_getLast?_append_of_mem_getLast? last

/-- Where locations go when `first` stands in place of `upper` and a line break behind it, and what
stood behind them moves by `f`. -/
def shift (first upper : Source) (f : Location → Location) (l : Location) : Location :=
  if l.index ≤ upper.length then l else first.below (f (upper.above l))

theorem shift_below (first upper : Source) (f : Location → Location) {l : Location}
    (h : 0 ≤ l.index) : shift first upper f (upper.below l) = first.below (f l) := by
  have far : ¬ (upper.below l).index ≤ upper.length := by
    simp only [below, Location.below]
    omega
  rw [shift, if_neg far, above_below]

/-- Two sources with a line break between them move as the lower one does, if what is seen of the
upper one stays. -/
theorem Moves.lineBreak {upper first lower bare : Source} {b d : Grapheme} (hb : b.isNewline)
    (hd : d.isNewline) (upperLegible : ∀ p ∈ Piece.cut upper.graphemes, p.IsLegible)
    (firstLegible : ∀ p ∈ Piece.cut first.graphemes, p.IsLegible)
    (shown : PlacedPiece.seen first.pieces = PlacedPiece.seen upper.pieces)
    (lines : first.graphemes.countP Grapheme.isNewline =
      upper.graphemes.countP Grapheme.isNewline)
    {f : Location → Location} (moves : Moves lower bare f) :
    Moves ⟨upper.graphemes ++ b :: lower.graphemes⟩ ⟨first.graphemes ++ d :: bare.graphemes⟩
      (shift first upper f) where
  legible p mem := by
    rw [Piece.cut_lineBreak hd fun p mem => (firstLegible p mem).closed, List.mem_append,
      List.mem_cons] at mem
    obtain mem | rfl | mem := mem
    · exact firstLegible p mem
    · exact (Piece.isHidden_of_isNewline hd).imp fun _ => And.left
    · exact moves.legible p mem
  seen := by
    have kept : (PlacedPiece.seen upper.pieces).map (PlacedToken.relocate (shift first upper f)) =
        PlacedPiece.seen upper.pieces := by
      refine PlacedToken.map_relocate_eq_self fun t mem a span => ?_
      obtain ⟨b, same, -, order, within⟩ := places_of_mem_seen mem
      obtain rfl := Option.some.inj (Eq.trans (Eq.symm span) same)
      exact ⟨if_pos (by omega), if_pos within⟩
    -- What is behind moves by `f`, and further down before or after that.
    have behind : (lower.seen.map (PlacedToken.relocate upper.below)).map
        (PlacedToken.relocate (shift first upper f)) =
          (lower.seen.map (PlacedToken.relocate f)).map (PlacedToken.relocate first.below) := by
      simp only [List.map_map]
      refine List.map_congr_left fun t mem => ?_
      simp only [Function.comp_apply, PlacedToken.relocate_relocate]
      refine PlacedToken.relocate_congr fun a span => ?_
      obtain ⟨start, stop⟩ := nonneg_of_mem_seen mem span
      exact ⟨shift_below first upper f start, shift_below first upper f stop⟩
    rw [seen_lineBreak hb upperLegible, seen_lineBreak hd firstLegible, List.map_append, kept,
      behind, shown, moves.seen]
  line l := by
    rw [shift]
    split
    · rfl
    · simp only [below, above, Location.below, Location.above, moves.line, lines]
      omega
  column l kept := by
    rw [shift]
    split
    · rfl
    · refine moves.column (upper.above l) (kept.imp (fun other same => other ?_)
        (mt (EndsInComment.behind hb upperLegible)))
      rw [endLocation_lineBreak hb, ← same, below_above]

/-- A source whose first comment has a line break behind it moves by what stands behind that. -/
theorem exists_moves_of_behind [Segmenter] {ps : List Piece} {c : Piece} {b : Grapheme}
    {hs : List Grapheme} (clusters : Grapheme.Clusters gs)
    (legible : ∀ p ∈ Piece.cut gs, p.IsLegible)
    (split : Piece.cut gs = ps ++ c :: ⟨b, []⟩ :: Piece.cut hs) (comment : c.isComment)
    (none : ∀ p ∈ ps, p.isComment = false) (hb : b.isNewline) {f : Location → Location}
    (moves : Moves ⟨hs⟩ ⟨Segmenter.split (Piece.uncommented (Piece.cut hs))⟩ f) :
    ∃ f, Moves ⟨gs⟩ ⟨Segmenter.split (Piece.uncommented (Piece.cut gs))⟩ f := by
  obtain ⟨found, -⟩ := Piece.found_of_cut_eq_cons (Piece.cut_back split)
  rw [List.append_cons] at split
  let front : Source := ⟨ps.flatMap Piece.graphemes⟩
  let upper : Source := ⟨(ps ++ [c]).flatMap Piece.graphemes⟩
  have upperCut : Piece.cut upper.graphemes = ps ++ [c] := Piece.cut_front split
  have frontCut : Piece.cut front.graphemes = ps := Piece.cut_front upperCut
  have whole : upper.graphemes ++ b :: hs = gs := by
    rw [← Piece.flatMap_graphemes_cut gs, split, List.flatMap_append, List.flatMap_cons,
      Piece.flatMap_graphemes_cut]
    rfl
  have joined : upper.graphemes = front.graphemes ++ c.graphemes := by simp [upper, front]
  have inked (p) (mem : p ∈ Piece.cut front.graphemes) : p.IsLegible ∧ p.isComment = false := by
    rw [frontCut] at mem
    exact ⟨legible p (by simp [split, mem]), none p mem⟩
  have part : front.graphemes <:+: gs := by
    rw [← whole, joined, List.append_assoc]
    exact (List.prefix_append ..).isInfix
  obtain ⟨ks, d, hd, chars, cut, lines, within, shown⟩ :=
    exists_lineBreak hb (clusters.part part) inked
  have left : Segmenter.split (Piece.uncommented (Piece.cut gs)) =
      ks ++ d :: Segmenter.split (Piece.uncommented (Piece.cut hs)) := by
    rw [split, Piece.uncommented_append, Piece.uncommented_append, Piece.uncommented_cons comment,
      Piece.uncommented_lineBreak hb, Piece.uncommented_eq none]
    refine (congrArg _ ?_).trans (cut _)
    rw [← List.append_assoc, ← List.append_assoc, chars]
    exact congrArg (· ++ _ ++ _) (List.append_nil _)
  rw [left, ← whole]
  refine ⟨shift ⟨ks⟩ upper f, Moves.lineBreak hb hd ?_ ?_ ?_ ?_ moves⟩
  · rw [upperCut]
    exact fun p mem => legible p (split ▸ List.mem_append_left _ mem)
  · exact fun p mem => (inked p (within p mem)).1
  · exact shown.trans (seen_pieces_concat upperCut (Piece.isHidden_of_isComment comment)).symm
  · rw [lines, joined, List.countP_append, Piece.countP_of_isComment found comment, Nat.add_zero]

/-- Taking all comments out of a source without faults moves what else is seen of it. -/
theorem exists_moves [Segmenter] (clusters : Grapheme.Clusters gs)
    (legible : ∀ p ∈ Piece.cut gs, p.IsLegible) :
    ∃ f, Moves ⟨gs⟩ ⟨Segmenter.split (Piece.uncommented (Piece.cut gs))⟩ f := by
  induction length : gs.length using Nat.strongRecOn generalizing gs with
  | ind n ih =>
    obtain none | ⟨ps, c, qs, split, comment, none⟩ := Piece.exists_first_comment (Piece.cut gs)
    · exact ⟨id, moves_of_none clusters legible none⟩
    have whole := Piece.flatMap_graphemes_cut gs
    obtain ⟨found, rest⟩ := Piece.found_of_cut_eq_cons (Piece.cut_back split)
    have newline := (Piece.comment_behind found comment).2
    rw [split, List.flatMap_append, List.flatMap_cons] at whole
    -- Behind the comment the source ends, or a line break stands there.
    cases behind : qs.flatMap Piece.graphemes with
    | nil =>
      rw [behind, Piece.cut] at rest
      exact exists_moves_of_last clusters legible (rest ▸ split) comment none
    | cons b hs =>
      rw [behind] at newline rest whole
      have hb : b.isNewline := newline b rfl
      have cut : Piece.cut (b :: hs) = ⟨b, []⟩ :: Piece.cut hs := by
        have empty : Piece.cut [] = [] := by rw [Piece.cut]
        have whole : Piece.cut ([] ++ b :: hs) = Piece.cut [] ++ ⟨b, []⟩ :: Piece.cut hs :=
          Piece.cut_lineBreak hb (by simp [empty]) hs
        rwa [empty] at whole
      rw [cut] at rest
      have split : Piece.cut gs = ps ++ c :: ⟨b, []⟩ :: Piece.cut hs := rest ▸ split
      have part : hs <:+: gs := by
        rw [← whole, ← List.append_assoc, List.append_cons]
        exact (List.suffix_append ..).isInfix
      have shorter : hs.length < n := by
        rw [← length, ← whole]
        simp only [List.length_append, List.length_cons]
        omega
      obtain ⟨f, moves⟩ := ih hs.length shorter (clusters.part part)
        (fun p mem => legible p (by simp [split, mem])) rfl
      exact exists_moves_of_behind clusters legible split comment none hb moves

end Source

end Lox
