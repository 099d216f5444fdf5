import Lox.Proofs.Grapheme.Clusters

/-!
# Graphemes of line breaks

A line break belongs to no grapheme but its own, save a line feed behind a carriage return. So two
texts with a line break between them are split each by itself.

* `Grapheme.IsWhole.isNewline`: a line feed stands in no grapheme but a line break.
* `Grapheme.Clusters.exists_concat`: a run that ends in a carriage return.
* `Grapheme.split_lineBreak`: the graphemes of the two texts.
-/

namespace Lox.Grapheme

theorem eq_of_isNewline {g : Grapheme} (h : g.isNewline) :
    g = ⟨'\n', []⟩ ∨ g = ⟨'\r', ['\n']⟩ := by
  obtain ⟨lead, marks⟩ := g
  rw [isNewline, chars] at h
  unfold Location.breaksLine at h
  split at h
  · rename_i same
    obtain ⟨rfl, rfl⟩ := List.cons.inj same
    exact .inl rfl
  · rename_i same
    obtain ⟨rfl, rfl⟩ := List.cons.inj same
    exact .inr rfl
  · cases h

/-- A run of graphemes whose text ends with a code point has a last one, and it ends with it. -/
theorem exists_concat_of_getLast? {gs : List Grapheme} {c : Char}
    (h : (gs.flatMap chars).getLast? = some c) :
    ∃ front g, gs = front ++ [g] ∧ g.chars.getLast? = some c := by
  obtain rfl | ⟨front, g, rfl⟩ := List.eq_nil_or_concat' gs
  · cases h
  · refine ⟨front, g, rfl, ?_⟩
    rwa [List.flatMap_append, List.flatMap_singleton,
      List.getLast?_append_of_ne_nil _ (show g.chars ≠ [] from List.cons_ne_nil _ _)] at h

variable [Segmenter]

/-- A whole grapheme that holds a line feed is a line break. -/
theorem IsWhole.isNewline {g : Grapheme} (h : g.IsWhole) (mem : '\n' ∈ g.chars) : g.isNewline := by
  obtain rfl | rfl | rfl := Segmenter.eq_of_mem_chars h (.inr mem)
  · exact absurd mem (by decide)
  · rfl
  · rfl

/-- A whole grapheme that ends in a carriage return is nothing else. -/
theorem IsWhole.eq_of_getLast? {g : Grapheme} (h : g.IsWhole)
    (last : g.chars.getLast? = some '\r') : g = ⟨'\r', []⟩ := by
  obtain rfl | rfl | rfl := Segmenter.eq_of_mem_chars h (.inl (List.mem_of_getLast? last))
  · rfl
  · cases last
  · cases last

/-- Whole graphemes that end in a carriage return have it as their last grapheme. -/
theorem Clusters.exists_concat {gs : List Grapheme} (h : Clusters gs)
    (last : (gs.flatMap chars).getLast? = some '\r') : ∃ front, gs = front ++ [⟨'\r', []⟩] := by
  obtain ⟨front, g, rfl, ending⟩ := exists_concat_of_getLast? last
  exact ⟨front, by rw [(h.whole (by simp)).eq_of_getLast? ending]⟩

/-- No line break is parted. -/
theorem Clusters.not_parted {gs : List Grapheme} (h : Clusters gs) :
    ¬ [⟨'\r', []⟩, ⟨'\n', []⟩] <:+: gs := by
  intro part
  have parted : Segmenter.split ['\r', '\n'] = [⟨'\r', []⟩, ⟨'\n', []⟩] := (h.part part).split_eq
  cases (List.cons.inj (Segmenter.split_crlf.symm.trans parted)).1

/-- A text starts afresh behind a line break. -/
theorem split_chars_append {b : Grapheme} (hb : b.isNewline) (ds : List Char) :
    Segmenter.split (b.chars ++ ds) = b :: Segmenter.split ds := by
  have text := Segmenter.flatMap_chars_split (b.chars ++ ds)
  have clusters := clusters_split (b.chars ++ ds)
  generalize Segmenter.split (b.chars ++ ds) = gs at text clusters ⊢
  cases gs with
  | nil => cases text
  | cons g gs =>
    have rest : Clusters gs := clusters.part (List.suffix_cons g gs).isInfix
    have whole : g.IsWhole := clusters.whole List.mem_cons_self
    have lead : g.lead = b.lead := (List.cons.inj text).1
    suffices same : g = b by
      rw [same, List.flatMap_cons] at text
      rw [same, ← List.append_cancel_left text, rest.split_eq]
    obtain rfl | rfl := eq_of_isNewline hb
    · obtain rfl | rfl := eq_of_isNewline (whole.isNewline (List.mem_cons.mpr (.inl lead.symm)))
      · rfl
      · cases lead
    · have start : '\r' ∈ g.chars := List.mem_cons.mpr (.inl lead.symm)
      obtain rfl | rfl | rfl := Segmenter.eq_of_mem_chars whole (.inl start)
      · -- The line feed would start the next grapheme, and be nothing else.
        exfalso
        cases gs with
        | nil => cases (List.cons.inj text).2
        | cons h gs =>
          have next : h.lead = '\n' := (List.cons.inj (List.cons.inj text).2).1
          have feed := (rest.whole List.mem_cons_self).isNewline
            (List.mem_cons.mpr (.inl next.symm))
          obtain rfl | rfl := eq_of_isNewline feed
          · exact clusters.not_parted ⟨[], gs, rfl⟩
          · cases next
      · cases lead
      · rfl

/-- A text is split as before in front of a line break, unless this takes a carriage return away
from it. -/
theorem split_append_chars {b : Grapheme} (hb : b.isNewline) {cs : List Char}
    (h : b = ⟨'\n', []⟩ → cs.getLast? ≠ some '\r') :
    Segmenter.split (cs ++ b.chars) = Segmenter.split cs ++ [b] := by
  have text := Segmenter.flatMap_chars_split (cs ++ b.chars)
  have clusters := clusters_split (cs ++ b.chars)
  generalize Segmenter.split (cs ++ b.chars) = gs at text clusters ⊢
  have feed : (gs.flatMap chars).getLast? = some '\n' := by
    rw [text, List.getLast?_append_of_ne_nil _ (show b.chars ≠ [] from List.cons_ne_nil _ _)]
    obtain rfl | rfl := eq_of_isNewline hb <;> rfl
  obtain ⟨front, g, rfl, last⟩ := exists_concat_of_getLast? feed
  have before : Clusters front := clusters.part (List.prefix_append ..).isInfix
  have newline := (clusters.whole (by simp)).isNewline (List.mem_of_getLast? last)
  rw [List.flatMap_append, List.flatMap_singleton] at text
  suffices same : g = b by
    rw [same] at text
    rw [same, ← List.append_cancel_right text, before.split_eq]
  obtain rfl | rfl := eq_of_isNewline hb <;> obtain rfl | rfl := eq_of_isNewline newline
  · rfl
  · -- The carriage return would be the end of the text.
    have both : cs ++ ['\n'] = front.flatMap chars ++ ['\r'] ++ ['\n'] := by
      simpa [chars] using text.symm
    exact absurd (by rw [List.append_cancel_right both, List.getLast?_concat]) (h rfl)
  · -- The carriage return would end the grapheme before.
    exfalso
    have both : front.flatMap chars ++ ['\n'] = cs ++ ['\r'] ++ ['\n'] := by
      simpa [chars] using text
    obtain ⟨front, rfl⟩ :=
      before.exists_concat (by rw [List.append_cancel_right both, List.getLast?_concat])
    exact clusters.not_parted ⟨front, [], by simp⟩
  · rfl

/-- Two texts with a line break between them are split each by itself. -/
theorem split_lineBreak (b : Grapheme) (hb : b.isNewline) {cs : List Char}
    (h : b = ⟨'\n', []⟩ → cs.getLast? ≠ some '\r') (ds : List Char) :
    Segmenter.split (cs ++ (b.chars ++ ds)) = Segmenter.split cs ++ b :: Segmenter.split ds := by
  rw [← List.append_assoc, Segmenter.split_append ds (split_append_chars hb h),
    split_chars_append hb]

end Lox.Grapheme
