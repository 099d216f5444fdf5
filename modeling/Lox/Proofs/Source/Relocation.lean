import Lox.Proofs.Source.Places

/-!
# Other places for the same tokens

A piece of source that stands behind another one is read as if it stood alone, but for its places:
they lie further down and further on. What is placed is moved by moving each of its locations.

* `Location.below`: the location so many lines further down and so many graphemes further on.
* `Location.above`: the way back.
* `Location.advanceOver_below`: walking from there is walking from the location itself, moved.
* `Location.behind_lineBreak`: behind a line break a source starts afresh, only further down.
* `Span.relocate`, `PlacedToken.relocate`, `Diagnostic.relocate`: spans, tokens and reports with
  their locations moved.
-/

namespace Lox

/-! ## Locations -/

namespace Location

/-- The location so many lines further down and so many graphemes further on, in the same column. -/
def below (lines graphemes : Nat) (l : Location) : Location :=
  ⟨l.line + lines, l.column, l.index + graphemes⟩

variable {lines graphemes : Nat}

theorem advance_below (l : Location) (cs : List Char) :
    (l.below lines graphemes).advance cs = (l.advance cs).below lines graphemes := by
  unfold advance below
  split
  · simp only [mk.injEq, true_and]
    omega
  · simp only [mk.injEq, true_and]
    omega

/-- Walking over graphemes goes as far from any line. -/
theorem advanceOver_below (l : Location) (gs : List Grapheme) :
    (l.below lines graphemes).advanceOver gs = (l.advanceOver gs).below lines graphemes := by
  induction gs generalizing l with
  | nil => rfl
  | cons g gs ih => rw [advanceOver_cons, advance_below, ih, advanceOver_cons]

/-- The location so many lines further up and so many graphemes further back, in the same column. -/
def above (lines graphemes : Nat) (l : Location) : Location :=
  ⟨l.line - lines, l.column, l.index - graphemes⟩

@[simp] theorem above_below (l : Location) :
    (l.below lines graphemes).above lines graphemes = l := by
  simp [above, below]

@[simp] theorem below_above (l : Location) :
    (l.above lines graphemes).below lines graphemes = l := by
  simp [above, below]

/-- Behind a line break a source starts afresh, only further down. -/
theorem behind_lineBreak (gs : List Grapheme) {b : Grapheme} (hb : b.isNewline) :
    behind (gs ++ [b]) = below (gs.countP Grapheme.isNewline + 1) (gs.length + 1) {} := by
  have breaks : breaksLine b.chars = true := hb
  rw [behind_concat, advance, if_pos breaks]
  simp [behind, below]
  omega

end Location

/-! ## What is placed -/

/-- The span with its locations moved. -/
def Span.relocate (f : Location → Location) (s : Span) : Span := ⟨f s.start, f s.stop⟩

/-- The token at its moved place. -/
def PlacedToken.relocate (f : Location → Location) (t : PlacedToken) : PlacedToken :=
  ⟨t.token, t.span.map (Span.relocate f)⟩

namespace PlacedToken

variable {t : PlacedToken}

theorem token_relocate {token : Token} (h : t.token = token) (f : Location → Location) :
    (t.relocate f).token = token := h

theorem placed_relocate {a : Span} (h : t.span = some a) (f : Location → Location) :
    (t.relocate f).span = some (a.relocate f) := congrArg (Option.map (Span.relocate f)) h

theorem isSome_span_relocate (h : t.span.isSome) (f : Location → Location) :
    (t.relocate f).span.isSome := Option.isSome_map.trans h

@[simp] theorem relocate_relocate (f g : Location → Location) (t : PlacedToken) :
    (t.relocate f).relocate g = t.relocate (g ∘ f) := by
  obtain ⟨token, _ | a⟩ := t <;> rfl

/-- Only the places of a token matter for where it is moved. -/
theorem relocate_congr {f g : Location → Location}
    (h : ∀ a ∈ t.span, f a.start = g a.start ∧ f a.stop = g a.stop) :
    t.relocate f = t.relocate g := by
  obtain ⟨token, _ | a⟩ := t
  · rfl
  · obtain ⟨start, stop⟩ := h a rfl
    simp [relocate, Span.relocate, start, stop]

/-- Moving tokens leaves those of some kinds in their order. -/
theorem filter_relocate (f : Location → Location) (p : TokenKind → Bool) (ts : List PlacedToken) :
    (ts.map (relocate f)).filter (fun t => p t.kind) =
      (ts.filter fun t => p t.kind).map (relocate f) := List.filter_map

end PlacedToken

/-- The report of a moved place. -/
def Diagnostic.relocate (f : Location → Location) (d : Diagnostic) : Diagnostic :=
  ⟨d.cause, d.span.map (Span.relocate f)⟩

/-! Moving nothing leaves everything as it is. -/

@[simp] theorem Span.relocate_id : relocate id = id := rfl

@[simp] theorem PlacedToken.relocate_id : relocate id = id := by
  funext t
  simp [relocate]

@[simp] theorem Diagnostic.relocate_id : relocate id = id := by
  funext d
  simp [relocate]

/-- Tokens at places that stay are left as they are. -/
theorem PlacedToken.map_relocate_eq_self {f : Location → Location} {ts : List PlacedToken}
    (h : ∀ t ∈ ts, ∀ a ∈ t.span, f a.start = a.start ∧ f a.stop = a.stop) :
    ts.map (relocate f) = ts := by
  conv_rhs => rw [← List.map_id ts, ← relocate_id]
  exact List.map_congr_left fun t mem => relocate_congr (h t mem)

/-- The piece at its moved place. -/
def PlacedPiece.relocate (f : Location → Location) (p : PlacedPiece) : PlacedPiece :=
  ⟨p.piece, p.span.relocate f⟩

namespace PlacedPiece

theorem token?_relocate (f : Location → Location) (p : PlacedPiece) :
    (p.relocate f).token? = p.token?.map (PlacedToken.relocate f) := by
  cases reading : p.piece.reading <;> simp [token?, relocate, reading, PlacedToken.relocate]

theorem diagnostic?_relocate (f : Location → Location) (p : PlacedPiece) :
    (p.relocate f).diagnostic? = p.diagnostic?.map (Diagnostic.relocate f) := by
  cases reading : p.piece.reading <;> simp [diagnostic?, relocate, reading, Diagnostic.relocate]

/-- Pieces from a lower line on are placed alike, further down. -/
theorem place_below {lines graphemes : Nat} (l : Location) (ps : List Piece) :
    place (l.below lines graphemes) ps =
      (place l ps).map (relocate (Location.below lines graphemes)) := by
  induction ps generalizing l with
  | nil => rfl
  | cons p ps ih =>
    simp only [place, Location.advanceOver_below, ih, List.map_cons]
    rfl

theorem place_append (l : Location) (ps qs : List Piece) :
    place l (ps ++ qs) = place l ps ++ place (l.advanceOver (ps.flatMap Piece.graphemes)) qs := by
  induction ps generalizing l with
  | nil => rfl
  | cons p ps ih =>
    simp only [List.cons_append, place, ih, List.flatMap_cons, Location.advanceOver_append]

end PlacedPiece

end Lox
