import Mathlib.Data.List.Infix
import Mathlib.Data.List.TakeWhile
import Lox.Token.Scan

/-!
# Pieces and what they are read as

The first grapheme of a piece tells of what sort it is, and the sort tells how far the piece
reaches. Here this is read backwards: from what a piece is read as to how far it reaches, whatever
follows it.

* `Piece.mem_cut`: a piece is a part of what was cut, and it reaches as far as its first grapheme
  says.
* `Piece.ReadAs`: what a piece looks like that is read as a token.
* `Piece.Ends`: the piece ends before the given graphemes. Pieces that each end before the next are
  cut into themselves: `Piece.cut_flatMap`.
-/

namespace Lox.Piece

/-- A piece is known from its graphemes. -/
theorem graphemes_inj {p q : Piece} (h : p.graphemes = q.graphemes) : p = q := by
  obtain ⟨lead, tail⟩ := p
  obtain ⟨lead', tail'⟩ := q
  obtain ⟨rfl, rfl⟩ := List.cons.inj h
  rfl

theorem mem_cut {gs : List Grapheme} {p : Piece} (h : p ∈ cut gs) :
    p.graphemes <:+: gs ∧ ∃ rest : List Grapheme, p.tail = rest.take (extent p.lead rest) := by
  induction gs using cut.induct with
  | case1 => simp [cut] at h
  | case2 lead rest ih =>
    rw [cut, List.mem_cons] at h
    obtain rfl | h := h
    · exact ⟨⟨[], rest.drop (extent lead rest), by simp [graphemes]⟩, rest, rfl⟩
    · obtain ⟨part, reach⟩ := ih h
      exact ⟨part.trans ((List.drop_suffix _ rest).trans (List.suffix_cons lead rest)).isInfix,
        reach⟩

/-- Before these graphemes the piece ends. -/
def Ends (p : Piece) (rest : List Grapheme) : Prop :=
  extent p.lead (p.tail ++ rest) = p.tail.length

/-- Each piece ends before the next. -/
def Separate : List Piece → Prop
  | [] => True
  | p :: ps => p.Ends (ps.flatMap graphemes) ∧ Separate ps

/-- A piece is cut off where it ends. -/
theorem cut_of_ends {p : Piece} {rest : List Grapheme} (h : p.Ends rest) :
    cut (p.graphemes ++ rest) = p :: cut rest := by
  have reach : extent p.lead (p.tail ++ rest) = p.tail.length := h
  rw [graphemes, List.cons_append, cut, reach, List.take_left, List.drop_left]

/-- Pieces that each end before the next are cut into themselves. -/
theorem cut_flatMap {ps : List Piece} (h : Separate ps) : cut (ps.flatMap graphemes) = ps := by
  induction ps with
  | nil => simp [cut]
  | cons p ps ih => rw [List.flatMap_cons, cut_of_ends h.1, ih h.2]

/-! ## Readings -/

/-- The grapheme starts a word and nothing else. -/
structure IsWordStart (g : Grapheme) : Prop where
  withEqual : withEqual? g = none
  notSlash : g ≠ ⟨'/', []⟩
  notQuote : g ≠ ⟨'"', []⟩
  notDigit : g.isDigit = false
  alpha : g.isAlpha = true

/-- What a piece looks like that is read as a token. -/
inductive ReadAs (p : Piece) : Token → Prop where
  | mark (m : Mark) : ReadAs p (.mark m)
  | whitespace (b : Blank) : ReadAs p (.whitespace b)
  | comment : p.lead = ⟨'/', []⟩ → ReadAs p (.comment p.text)
  | string (inner : List Grapheme) : p.lead = ⟨'"', []⟩ → p.tail = inner ++ [⟨'"', []⟩] →
    ReadAs p (.string (Grapheme.join inner))
  | number : p.lead.isDigit → ReadAs p (.number p.numberOf)
  | identifier : IsWordStart p.lead → ReadAs p (.identifier p.text)

theorem readAs_of_reading {p : Piece} {t : Token} (h : p.reading = .ok t) : p.ReadAs t := by
  unfold reading at h
  split at h
  · cases h
    exact .mark _
  · cases h
    exact .mark _
  · cases h
    exact .whitespace _
  rename_i noMark noPair noBlank
  split at h
  · rename_i slash
    split at h <;> cases h
    · exact .mark _
    · exact .comment slash
  rename_i notSlash
  split at h
  · rename_i quote
    split at h
    · rename_i closed
      obtain ⟨inner, tail⟩ := List.getLast?_eq_some_iff.mp closed
      cases h
      rw [tail, List.dropLast_concat]
      exact .string inner quote tail
    · cases h
  rename_i notQuote
  split at h
  · rename_i digit
    cases h
    exact .number digit
  rename_i notDigit
  split at h
  · rename_i alpha
    cases h
    unfold wordOf
    split
    · exact .mark _
    · exact .identifier ⟨noPair, notSlash, notQuote, Bool.eq_false_iff.mpr notDigit, alpha⟩
  · cases h

/-! ## Names -/

theorem IsWordStart.extent {g : Grapheme} (h : IsWordStart g) (rest : List Grapheme) :
    extent g rest = (rest.takeWhile Grapheme.isAlphanumeric).length := by
  unfold Piece.extent
  rw [h.withEqual, h.notDigit, h.alpha, if_neg h.notSlash, if_neg h.notQuote]
  simp

/-- A run of one sort ends before what is not of the sort. -/
theorem takeWhile_append_stop {α : Type} {f : α → Bool} {tail rest : List α}
    (inside : ∀ g ∈ tail, f g) (next : ∀ g ∈ rest.head?, f g = false) :
    (tail ++ rest).takeWhile f = tail := by
  have stop : rest.takeWhile f = [] := by
    cases rest with
    | nil => rfl
    | cons g rest => rw [List.takeWhile_cons, next g rfl, if_neg Bool.false_ne_true]
  rw [List.takeWhile_append_of_pos inside, stop, List.append_nil]

/-- A word ends before what does not continue it. -/
theorem IsWordStart.ends {p : Piece} (h : IsWordStart p.lead)
    (tail : ∀ g ∈ p.tail, g.isAlphanumeric) {rest : List Grapheme}
    (next : ∀ g ∈ rest.head?, g.isAlphanumeric = false) : p.Ends rest := by
  rw [Ends, h.extent, takeWhile_append_stop tail next]

theorem take_takeWhile (f : Grapheme → Bool) (gs : List Grapheme) :
    gs.take (gs.takeWhile f).length = gs.takeWhile f := by
  induction gs with
  | nil => rfl
  | cons g gs ih =>
    rw [List.takeWhile_cons]
    cases f g with
    | false => rfl
    | true => exact congrArg (g :: ·) ih

/-- A word in a source is as long as it goes on. -/
theorem isAlphanumeric_of_mem_tail {gs : List Grapheme} {p : Piece} (h : p ∈ cut gs)
    (word : IsWordStart p.lead) : ∀ g ∈ p.tail, g.isAlphanumeric := by
  obtain ⟨-, rest, tail⟩ := mem_cut h
  rw [word.extent, take_takeWhile] at tail
  intro g mem
  rw [tail] at mem
  exact List.mem_takeWhile_imp mem

/-! ## Strings -/

/-- A string in a source holds no quote inside. -/
theorem ne_quote_of_mem_inner {gs inner : List Grapheme} {p : Piece} (h : p ∈ cut gs)
    (lead : p.lead = ⟨'"', []⟩) (tail : p.tail = inner ++ [⟨'"', []⟩]) :
    ∀ g ∈ inner, (g != ⟨'"', []⟩) = true := by
  obtain ⟨-, rest, reach⟩ := mem_cut h
  have within : inner = (rest.takeWhile (fun g => g != ⟨'"', []⟩)).take inner.length := by
    rw [lead, show extent ⟨'"', []⟩ rest =
      (rest.takeWhile (fun g => g != ⟨'"', []⟩)).length + 1 from rfl] at reach
    have short := congrArg List.length (tail.symm.trans reach)
    rw [List.length_append, List.length_take] at short
    have start := congrArg (List.take inner.length) (tail.symm.trans reach)
    rw [List.take_left, List.take_take] at start
    rw [← take_takeWhile, List.take_take, start]
    congr 1
    simp at *
    omega
  intro g mem
  rw [within] at mem
  have kept := List.mem_of_mem_take mem
  exact @List.mem_takeWhile_imp _ (fun g => g != ⟨'"', []⟩) rest g kept

/-- A string ends with its quote. -/
theorem ends_of_quote {inner rest : List Grapheme} {p : Piece} (lead : p.lead = ⟨'"', []⟩)
    (tail : p.tail = inner ++ [⟨'"', []⟩]) (inside : ∀ g ∈ inner, (g != ⟨'"', []⟩) = true) :
    p.Ends rest := by
  have extent_eq (gs : List Grapheme) :
      extent p.lead gs = (gs.takeWhile (fun g => g != ⟨'"', []⟩)).length + 1 := by
    rw [lead]
    rfl
  rw [Ends, extent_eq, tail, List.append_assoc, takeWhile_append_stop inside]
  · simp
  · rintro _ ⟨⟩
    rfl

end Lox.Piece
