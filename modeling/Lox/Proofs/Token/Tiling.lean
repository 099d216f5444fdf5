import Lox.Proofs.Source.Places
import Lox.Proofs.Syntax.Running
import Lox.Session

/-!
# Scanning loses nothing

The tokens of a source and the reports about it, put in the order in which they start, lie end to
end from the first grapheme to the last, and together they are the source. Every place that they
mention is where it says it is.

* `PlacedPiece.place_locate`: pieces that a source goes on with are placed where they stand in it.
* `Span.Tile`: spans that lie end to end, none of them empty.
* `Scanned.stretches`: the stretches of tokens and reports, in the order in which they start.
* `scan_tiles`: the main statement.
-/

namespace Lox

/-! ## Pieces at their places -/

/-- The texts of pieces, put together, are the text of their graphemes. -/
theorem Piece.join_map_text (ps : List Piece) :
    String.join (ps.map text) = Grapheme.join (ps.flatMap graphemes) := by
  rw [← String.toList_inj, String.toList_join, Grapheme.join, String.toList_ofList]
  simp [List.flatMap_map, List.flatMap_assoc, text, Grapheme.join]

namespace PlacedPiece

theorem map_piece_place (l : Location) (ps : List Piece) : (place l ps).map piece = ps := by
  induction ps generalizing l with
  | nil => rfl
  | cons p ps ih => exact congrArg (p :: ·) (ih _)

variable {s : Source} {i : Nat} {ps : List Piece}

/-- Pieces that a source goes on with are placed where they stand in it. -/
theorem place_locate {p : Piece} (h : s.graphemes.drop i = (p :: ps).flatMap Piece.graphemes) :
    ∃ j, i < j ∧ j ≤ s.length ∧ p.graphemes = (s.graphemes.take j).drop i ∧
      s.graphemes.drop j = ps.flatMap Piece.graphemes ∧
      place (s.locate i) (p :: ps) = ⟨p, ⟨s.locate i, s.locate j⟩⟩ :: place (s.locate j) ps := by
  rw [List.flatMap_cons] at h
  have length := congrArg List.length h
  rw [List.length_drop, List.length_append] at length
  have pos : 0 < p.graphemes.length := Nat.succ_pos _
  have piece : p.graphemes = (s.graphemes.take (i + p.graphemes.length)).drop i := by
    rw [List.drop_take, h, Nat.add_sub_cancel_left, List.take_left]
  refine ⟨i + p.graphemes.length, by omega, by unfold Source.length; omega, piece, ?_, ?_⟩
  · rw [← List.drop_drop, h, List.drop_left]
  · have stop : (s.locate i).advanceOver p.graphemes = s.locate (i + p.graphemes.length) := by
      conv_lhs => rw [piece]
      exact s.advanceOver_locate (Nat.le_add_right _ _)
    rw [place]
    simp only [stop]

/-- Every piece stands between two places of the source. -/
theorem exists_places {p : PlacedPiece} (h : s.graphemes.drop i = ps.flatMap Piece.graphemes)
    (mem : p ∈ place (s.locate i) ps) : ∃ j k, i ≤ j ∧ j < k ∧ k ≤ s.length ∧
      p.span = ⟨s.locate j, s.locate k⟩ ∧ p.piece.graphemes = (s.graphemes.take k).drop j := by
  induction ps generalizing i with
  | nil => cases mem
  | cons q ps ih =>
    obtain ⟨j, hij, hj, piece, rest, placed⟩ := place_locate h
    rw [placed, List.mem_cons] at mem
    obtain rfl | mem := mem
    · exact ⟨i, j, Nat.le_refl i, hij, hj, rfl, piece⟩
    · obtain ⟨k, l, hjk, later⟩ := ih rest mem
      exact ⟨k, l, hij.le.trans hjk, later⟩

end PlacedPiece

/-! ## Spans end to end -/

/-- The spans lie end to end from one location to another, and none of them is empty. -/
def Span.Tile : Location → List Span → Location → Prop
  | l, [], m => l = m
  | l, s :: ss, m => s.start = l ∧ s.start.index < s.stop.index ∧ Tile s.stop ss m

namespace PlacedPiece

variable {s : Source} {i : Nat} {ps : List Piece}

/-- Pieces lie end to end. -/
theorem tile_place (h : s.graphemes.drop i = ps.flatMap Piece.graphemes) (hi : i ≤ s.length) :
    Span.Tile (s.locate i) ((place (s.locate i) ps).map span) (s.locate s.length) := by
  induction ps generalizing i with
  | nil =>
    have all : s.length ≤ i := List.drop_eq_nil_iff.mp h
    rw [Nat.le_antisymm hi all]
    rfl
  | cons p ps ih =>
    obtain ⟨j, hij, hj, -, rest, placed⟩ := place_locate h
    rw [placed]
    refine ⟨rfl, ?_, ih rest hj⟩
    rw [Source.index_locate hi, Source.index_locate hj]
    exact Int.ofNat_lt.mpr hij

/-- Pieces follow each other in the order in which they start. -/
theorem ascending_place (h : s.graphemes.drop i = ps.flatMap Piece.graphemes) :
    (place (s.locate i) ps).Pairwise fun p q => p.span.start.index < q.span.start.index := by
  induction ps generalizing i with
  | nil => exact .nil
  | cons p ps ih =>
    obtain ⟨j, hij, hj, -, rest, placed⟩ := place_locate h
    rw [placed]
    refine .cons (fun q mem => ?_) (ih rest)
    obtain ⟨k, l, hjk, hkl, hl, span, -⟩ := exists_places rest mem
    rw [span]
    show (s.locate i).index < (s.locate k).index
    rw [Source.index_locate (hij.le.trans hj), Source.index_locate (hkl.le.trans hl)]
    exact Int.ofNat_lt.mpr (hij.trans_le hjk)

end PlacedPiece

/-! ## Tokens and reports in one row -/

/-- Starts no later than. -/
def Span.startsBy (a b : Span) : Bool := a.start.index ≤ b.start.index

/-- The stretches of the tokens before the end and of the reports, in the order in which they
start. -/
def Scanned.stretches (r : Scanned) : List Span :=
  ((r.tokens.filter fun t => !t.isEnd).filterMap PlacedToken.span).merge
    (r.errors.filterMap Diagnostic.span) Span.startsBy

/-- A row in ascending order is put together again from the parts that it was sorted into. -/
theorem merge_filter {α : Type} {le : α → α → Bool} (f : α → Bool) {as : List α}
    (h : as.Pairwise fun a b => le a b = true ∧ le b a = false) :
    (as.filter f).merge (as.filter fun a => !f a) le = as := by
  induction as with
  | nil => simp
  | cons a as ih =>
    rw [List.pairwise_cons] at h
    specialize ih h.2
    rw [List.filter_cons, List.filter_cons]
    -- The first of the row is the first of its part and comes before all of the other part.
    cases fa : f a with
    | true =>
      rw [if_pos rfl, if_neg (by simp)]
      cases e : as.filter fun a => !f a with
      | nil =>
        rw [e, List.merge_right] at ih
        rw [List.merge_right, ih]
      | cons b bs =>
        have later : b ∈ as := (List.mem_filter.mp (e ▸ List.mem_cons_self)).1
        rw [List.cons_merge_cons_pos _ _ _ (h.1 b later).1, ← e, ih]
    | false =>
      rw [if_neg Bool.false_ne_true, if_pos (by simp)]
      cases e : as.filter f with
      | nil =>
        rw [e, List.nil_merge] at ih
        rw [List.nil_merge, ih]
      | cons b bs =>
        have later : b ∈ as := (List.mem_filter.mp (e ▸ List.mem_cons_self)).1
        rw [List.cons_merge_cons, (h.1 b later).2, if_neg Bool.false_ne_true, ← e, ih]

/-- No piece is read as the end of a source. -/
theorem Piece.reading_ne_endOfFile (p : Piece) : p.reading ≠ .ok (.mark .endOfFile) := by
  unfold reading
  split
  · rename_i mark single
    rintro ⟨⟩
    unfold single? at single
    split at single <;> cases single
  · rename_i alone withEqual pair _
    unfold withEqual? at pair
    split at pair <;> cases pair <;> cases p.tail.isEmpty <;> rintro ⟨⟩
  · rintro ⟨⟩
  split
  · cases p.tail.isEmpty <;> rintro ⟨⟩
  split
  · split <;> rintro ⟨⟩
  split
  · rintro ⟨⟩
  split
  · unfold wordOf
    split
    · rename_i keyword found
      rintro ⟨⟩
      exact absurd (List.mem_of_find?_eq_some found) (by decide)
    · rintro ⟨⟩
  · rintro ⟨⟩

namespace PlacedPiece

theorem token?_eq_some {p : PlacedPiece} {t : PlacedToken} :
    p.token? = some t ↔ p.piece.reading = .ok t.token ∧ t.span = some p.span := by
  obtain ⟨token, span⟩ := t
  cases reading : p.piece.reading <;> simp [token?, reading, eq_comm]

theorem diagnostic?_eq_some {p : PlacedPiece} {d : Diagnostic} :
    p.diagnostic? = some d ↔ p.piece.reading = .error d.cause ∧ d.span = some p.span := by
  obtain ⟨cause, span⟩ := d
  cases reading : p.piece.reading <;> simp [diagnostic?, reading, eq_comm]

/-- The piece is a token. -/
def isToken (p : PlacedPiece) : Bool := p.token?.isSome

theorem span_tokens (ps : List PlacedPiece) :
    (ps.filterMap token?).filterMap PlacedToken.span = (ps.filter isToken).map span := by
  induction ps with
  | nil => rfl
  | cons p ps ih =>
    cases reading : p.piece.reading <;>
      simp [isToken, token?, reading, ih]

theorem span_diagnostics (ps : List PlacedPiece) :
    (ps.filterMap diagnostic?).filterMap Diagnostic.span =
      (ps.filter fun p => !p.isToken).map span := by
  induction ps with
  | nil => rfl
  | cons p ps ih =>
    cases reading : p.piece.reading <;>
      simp [isToken, token?, diagnostic?, reading, ih]

end PlacedPiece

namespace Source

variable (s : Source)

theorem drop_zero_eq_cut : s.graphemes.drop 0 = (Piece.cut s.graphemes).flatMap Piece.graphemes :=
  (Piece.flatMap_graphemes_cut s.graphemes).symm

theorem isEnd_of_mem_tokens {t : PlacedToken}
    (h : t ∈ s.pieces.filterMap PlacedPiece.token?) : t.isEnd = false := by
  obtain ⟨p, -, token⟩ := List.mem_filterMap.mp h
  obtain ⟨reading, -⟩ := PlacedPiece.token?_eq_some.mp token
  refine Bool.eq_false_iff.mpr fun ended => p.piece.reading_ne_endOfFile ?_
  rw [reading, PlacedToken.isEnd_iff.mp ended]

/-- All tokens but the end come from pieces. -/
theorem filter_tokens_scan : (s.scan.tokens.filter fun t => !t.isEnd) =
    s.pieces.filterMap PlacedPiece.token? := by
  rw [scan, List.filter_append, List.filter_eq_self.mpr fun t mem => by
    rw [s.isEnd_of_mem_tokens mem, Bool.not_false]]
  simp [endToken, PlacedToken.isEnd, PlacedToken.kind, Token.kind]

/-- The stretches that scanning gives are those of the pieces. -/
theorem stretches_scan : s.scan.stretches = s.pieces.map PlacedPiece.span := by
  have ascending : s.pieces.Pairwise fun p q =>
      Span.startsBy p.span q.span = true ∧ Span.startsBy q.span p.span = false := by
    refine (PlacedPiece.ascending_place s.drop_zero_eq_cut).imp fun {p q} h => ?_
    simp only [Span.startsBy, decide_eq_true_eq, decide_eq_false_iff_not]
    omega
  rw [Scanned.stretches, filter_tokens_scan, PlacedPiece.span_tokens]
  show List.merge _ ((s.pieces.filterMap PlacedPiece.diagnostic?).filterMap Diagnostic.span) _ = _
  rw [PlacedPiece.span_diagnostics,
    ← List.map_merge (r := fun p q => Span.startsBy p.span q.span) fun _ _ _ _ => rfl,
    merge_filter _ ascending]

theorem places_of_mem_pieces {p : PlacedPiece} (h : p ∈ s.pieces) : ∃ i j, i < j ∧ j ≤ s.length ∧
    p.span = ⟨s.locate i, s.locate j⟩ := by
  obtain ⟨i, j, -, hij, hj, span, -⟩ := PlacedPiece.exists_places s.drop_zero_eq_cut h
  exact ⟨i, j, hij, hj, span⟩

/-- A piece holds the text of its stretch. -/
theorem textOf_span {p : PlacedPiece} (h : p ∈ s.pieces) : s.textOf p.span = p.piece.text := by
  obtain ⟨i, j, -, hij, hj, span, piece⟩ := PlacedPiece.exists_places s.drop_zero_eq_cut h
  rw [textOf, span, s.slice_locate hij.le hj, ← piece, Piece.text]

/-- The texts of all stretches, put together, are the text of the source. -/
theorem join_textOf_stretches :
    String.join (s.scan.stretches.map s.textOf) = Grapheme.join s.graphemes := by
  have texts : s.pieces.map (s.textOf ∘ PlacedPiece.span) =
      (Piece.cut s.graphemes).map Piece.text := by
    rw [← PlacedPiece.map_piece_place {} (Piece.cut s.graphemes), List.map_map]
    exact List.map_congr_left fun p mem => s.textOf_span mem
  rw [stretches_scan, List.map_map, texts, Piece.join_map_text, Piece.flatMap_graphemes_cut]

end Source

/-- Scanning loses nothing, and every place is where it says it is. -/
theorem scan_tiles [Segmenter] (text : String) :
    let s := Source.ofText text
    let r := scanText text
    (∀ t ∈ r.tokens, ∃ i j, i ≤ j ∧ j ≤ s.length ∧ t.span = some ⟨s.locate i, s.locate j⟩) ∧
    (∀ d ∈ r.errors, ∃ i j, i < j ∧ j ≤ s.length ∧ d.span = some ⟨s.locate i, s.locate j⟩) ∧
    (∃ tokens stop, r.tokens = tokens ++ [stop] ∧ (∀ t ∈ tokens, t.isEnd = false) ∧ stop.isEnd ∧
      stop.span = some ⟨s.locate s.length, s.locate s.length⟩) ∧
    Span.Tile (s.locate 0) r.stretches (s.locate s.length) ∧
    String.join (r.stretches.map s.textOf) = text := by
  intro s r
  refine ⟨fun t mem => ?_, fun d mem => ?_, ?_, ?_, ?_⟩
  · rcases List.mem_append.mp mem with mem | mem
    · obtain ⟨p, hp, token⟩ := List.mem_filterMap.mp mem
      obtain ⟨i, j, hij, hj, span⟩ := s.places_of_mem_pieces hp
      exact ⟨i, j, hij.le, hj, span ▸ (PlacedPiece.token?_eq_some.mp token).2⟩
    · rw [List.mem_singleton.mp mem, Source.endToken, ← Source.locate_length]
      exact ⟨s.length, s.length, Nat.le_refl _, Nat.le_refl _, rfl⟩
  · obtain ⟨p, hp, diagnostic⟩ := List.mem_filterMap.mp mem
    obtain ⟨i, j, hij, hj, span⟩ := s.places_of_mem_pieces hp
    exact ⟨i, j, hij, hj, span ▸ (PlacedPiece.diagnostic?_eq_some.mp diagnostic).2⟩
  · refine ⟨_, s.endToken, rfl, fun t mem => s.isEnd_of_mem_tokens mem, rfl, ?_⟩
    rw [Source.endToken, Source.locate_length]
  · show Span.Tile (s.locate 0) s.scan.stretches _
    rw [s.stretches_scan]
    exact PlacedPiece.tile_place s.drop_zero_eq_cut (Nat.zero_le _)
  · show String.join (s.scan.stretches.map s.textOf) = text
    rw [s.join_textOf_stretches, Source.join_graphemes_ofText]

end Lox
