import Lox.Proofs.Grapheme.Clusters
import Lox.Proofs.Token.Pieces
import Lox.Session

/-!
# Texts and their tokens

A text that is read as some tokens and nothing else: every piece of it is one of them, in order,
white space included.

* `exists_piece_of_mem_scan`: a token of a text is what one of its pieces is read as.
* `Token.isSeen`: the parser sees the token.
* `Lexed`: the code points are read as the tokens.
* `scan_of_lexed`, `tokens_of_lexed`: such a text is scanned into the tokens and an end, without a
  report.
-/

namespace Lox

/-! ## Tokens and pieces -/

theorem mem_of_mem_place {l : Location} {ps : List Piece} {p : PlacedPiece}
    (h : p ∈ PlacedPiece.place l ps) : p.piece ∈ ps := by
  induction ps generalizing l with
  | nil => cases h
  | cons q ps ih =>
    rcases List.mem_cons.1 h with rfl | h
    · exact List.mem_cons_self
    · exact List.mem_cons_of_mem _ (ih h)

/-- Every token of a text but its end is what one of the pieces is read as. -/
theorem exists_piece_of_mem_scan [Segmenter] {text : String} {t : PlacedToken}
    (h : t ∈ (scanText text).tokens) (ht : t.isEnd = false) :
    ∃ p ∈ Piece.cut (Grapheme.split text), p.reading = .ok t.token := by
  rcases List.mem_append.1 h with h | h
  · obtain ⟨p, hp, htoken⟩ := List.mem_filterMap.1 h
    refine ⟨p.piece, mem_of_mem_place hp, ?_⟩
    unfold PlacedPiece.token? at htoken
    split at htoken
    · rename_i reading
      cases htoken
      exact reading
    · cases htoken
  · rw [List.mem_singleton.1 h] at ht
    cases ht

/-- The token is no white space. -/
def Token.isInk (t : Token) : Bool := t.kind != .whitespace

/-- The parser sees the token: it is neither white space nor a comment. -/
def Token.isSeen (t : Token) : Bool := t.isInk && t.kind != .comment

/-! ## Texts read as tokens -/

/-- The code points are read as these tokens and nothing else. -/
def Lexed [Segmenter] (cs : List Char) (ts : List Token) : Prop :=
  (Piece.cut (Segmenter.split cs)).map Piece.reading = ts.map .ok

theorem lexed_nil [Segmenter] : Lexed [] [] := by
  have nothing : Segmenter.split [] = [] := Grapheme.clusters_nil
  rw [Lexed, nothing, Piece.cut]
  rfl

/-- Pieces that are all read as tokens are those tokens, wherever they stand. -/
theorem tokens_of_readings {ts : List Token} {ps : List Piece}
    (h : ps.map Piece.reading = ts.map .ok) (l : Location) :
    ((PlacedPiece.place l ps).filterMap PlacedPiece.token?).map PlacedToken.token = ts ∧
      (∀ t ∈ (PlacedPiece.place l ps).filterMap PlacedPiece.token?, t.span.isSome) ∧
      (PlacedPiece.place l ps).filterMap PlacedPiece.diagnostic? = [] := by
  induction ps generalizing ts l with
  | nil =>
    obtain rfl : ts = [] := List.map_eq_nil_iff.mp h.symm
    exact ⟨rfl, by simp [PlacedPiece.place], rfl⟩
  | cons p ps ih =>
    obtain ⟨t, ts, rfl, reading, rest⟩ := List.map_eq_cons_iff.mp h.symm
    obtain ⟨tokens, placed, errors⟩ := ih rest.symm (l.advanceOver p.graphemes)
    have token : PlacedPiece.token? ⟨p, ⟨l, l.advanceOver p.graphemes⟩⟩ =
        some ⟨t, some ⟨l, l.advanceOver p.graphemes⟩⟩ := by
      simp only [PlacedPiece.token?, ← reading]
    have diagnostic : PlacedPiece.diagnostic? ⟨p, ⟨l, l.advanceOver p.graphemes⟩⟩ = none := by
      simp only [PlacedPiece.diagnostic?, ← reading]
    simp only [PlacedPiece.place, List.filterMap_cons, token, diagnostic, List.map_cons, tokens,
      errors, List.forall_mem_cons]
    exact ⟨trivial, ⟨rfl, placed⟩, trivial⟩

/-- A text that is read as some tokens is scanned into them, without a report. -/
theorem scan_of_lexed [Segmenter] {text : String} {ts : List Token} (h : Lexed text.toList ts) :
    ∃ placed stop, (Source.ofText text).scan = ⟨placed ++ [stop], []⟩ ∧ stop.isEnd ∧
      (∀ t ∈ placed ++ [stop], t.span.isSome) ∧ placed.map PlacedToken.token = ts := by
  obtain ⟨tokens, placed, errors⟩ := tokens_of_readings h {}
  have reports : (Source.ofText text).pieces.filterMap PlacedPiece.diagnostic? = [] := errors
  refine ⟨(Source.ofText text).pieces.filterMap PlacedPiece.token?,
    (Source.ofText text).endToken, ?_, rfl, ?_, tokens⟩
  · rw [Source.scan, reports]
  · intro t mem
    rw [List.mem_append, List.mem_singleton] at mem
    obtain mem | rfl := mem
    · exact placed t mem
    · rfl

/-- A text that is read as some tokens holds these and its end. -/
theorem tokens_of_lexed [Segmenter] {text : String} {ts : List Token} (h : Lexed text.toList ts) :
    (scanText text).errors = [] ∧
      (scanText text).tokens.map PlacedToken.token = ts ++ [.mark .endOfFile] := by
  obtain ⟨tokens, -, errors⟩ := tokens_of_readings h {}
  refine ⟨errors, ?_⟩
  rw [scanText, Source.scan, List.map_append]
  exact congrArg (· ++ [Token.mark .endOfFile]) tokens

end Lox
