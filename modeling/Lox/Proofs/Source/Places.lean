import Mathlib.Data.List.DropRight
import Lox.Token.Scan

/-!
# Where a grapheme stands

Locations are found by walking over the source from its start. Here they are told from the source
itself: the line counts the line breaks before a place, and the column counts the graphemes behind
the last of them.

* `Location.behind`: the location behind a run of graphemes that a source starts with.
* `Location.advanceOver_start`: walking over them from the start leads there.
* `Source.locate`: the location in front of which so many graphemes of a source stand.
* `Source.advanceOver_locate`: walking on from one place of a source leads to a later one.
* `Source.slice_locate`: the stretch between two places.
-/

namespace Lox

namespace Location

@[simp]
theorem advanceOver_nil (l : Location) : l.advanceOver [] = l := rfl

@[simp]
theorem advanceOver_cons (l : Location) (g : Grapheme) (gs : List Grapheme) :
    l.advanceOver (g :: gs) = (l.advance g.chars).advanceOver gs := rfl

theorem advanceOver_append (l : Location) (gs hs : List Grapheme) :
    l.advanceOver (gs ++ hs) = (l.advanceOver gs).advanceOver hs := by
  simp only [advanceOver, List.foldl_append]

/-- The location behind these graphemes, where a source starts with them. -/
def behind (gs : List Grapheme) : Location where
  line := 1 + gs.countP Grapheme.isNewline
  column := 1 + (gs.rtakeWhile fun g => !g.isNewline).length
  index := gs.length

/-- One more grapheme, at the end. -/
theorem behind_concat (gs : List Grapheme) (g : Grapheme) :
    behind (gs ++ [g]) = (behind gs).advance g.chars := by
  rw [advance]
  by_cases newline : g.isNewline
  · have breaks : breaksLine g.chars = true := newline
    have column : (gs ++ [g]).rtakeWhile (fun g => !g.isNewline) = [] :=
      List.rtakeWhile_concat_neg _ _ _ (by simp [newline])
    rw [if_pos breaks, behind, behind, column, List.countP_append, List.countP_singleton]
    simp [newline, Int.add_assoc]
  · have breaks : ¬ breaksLine g.chars = true := newline
    have column : (gs ++ [g]).rtakeWhile (fun g => !g.isNewline) =
        (gs.rtakeWhile fun g => !g.isNewline) ++ [g] :=
      List.rtakeWhile_concat_pos _ _ _ (by simp [newline])
    rw [if_neg breaks, behind, behind, column, List.countP_append, List.countP_singleton]
    simp [newline, Int.add_assoc]

/-- Walking over graphemes from the start leads behind them. -/
theorem advanceOver_start (gs : List Grapheme) : advanceOver {} gs = behind gs := by
  induction gs using List.reverseRecOn with
  | nil => rfl
  | append_singleton gs g ih =>
    rw [advanceOver_append, ih, advanceOver_cons, advanceOver_nil, behind_concat]

end Location

namespace Source

/-- The location in front of which `k` graphemes of the source stand. -/
def locate (s : Source) (k : Nat) : Location := .behind (s.graphemes.take k)

/-- The last place of a source is its end. -/
theorem locate_length (s : Source) : s.locate s.length = s.endLocation := by
  rw [locate, length, List.take_length, endLocation, Location.advanceOver_start]

theorem index_locate {s : Source} {k : Nat} (h : k ≤ s.length) : (s.locate k).index = k :=
  congrArg Nat.cast (List.length_take_of_le h)

theorem index_endLocation (s : Source) : s.endLocation.index = s.length := by
  rw [← locate_length, index_locate (Nat.le_refl _)]

theorem line_endLocation (s : Source) :
    s.endLocation.line = 1 + s.graphemes.countP Grapheme.isNewline := by
  rw [endLocation, Location.advanceOver_start]
  rfl

/-- Walking on from one place of a source leads to a later one. -/
theorem advanceOver_locate (s : Source) {i j : Nat} (h : i ≤ j) :
    (s.locate i).advanceOver ((s.graphemes.take j).drop i) = s.locate j := by
  have split : s.graphemes.take i ++ (s.graphemes.take j).drop i = s.graphemes.take j := by
    rw [← Nat.min_eq_left h, ← List.take_take, Nat.min_eq_left h, List.take_append_drop]
  rw [locate, locate, ← Location.advanceOver_start, ← Location.advanceOver_append, split,
    Location.advanceOver_start]

/-- The stretch between two places holds the graphemes between them. -/
theorem slice_locate (s : Source) {i j : Nat} (hij : i ≤ j) (hj : j ≤ s.length) :
    s.slice ⟨s.locate i, s.locate j⟩ = (s.graphemes.take j).drop i := by
  have before {k : Nat} (hk : k ≤ s.length) : s.before (s.locate k).index = k := by
    rw [index_locate hk, Source.before]
    simp
  rw [slice, before (hij.trans hj), before hj, List.drop_take]

end Source

end Lox
