import Lox.Grapheme.Segmenter
import Lox.Grapheme.Split

/-!
# Clusters follow the laws

Clusters are split off one after another, from the start of a text, and no rule looks back further
than the start of the open cluster. So what stands behind a boundary is read as a text of its own,
and what was read in front of it stays as it is whatever follows. This makes them a `Segmenter`, the
one that is meant where no other is given.

* `Grapheme.segment_front`, `Grapheme.segment_back`: a part of a text.
* `Grapheme.segment_append`: a longer text.
* `Grapheme.IsClosed`: no boundary stands inside the cluster.
* `Grapheme.IsClosed.eq_of_mem`: the clusters of line breaks.
-/

namespace Lox

/-! ## Classes -/

/-- What holds of each character below a bound, one by one. -/
theorem forall_char_lt {bound : Nat} {P : Char → Prop} (h : ∀ n < bound, P (Char.ofNat n))
    (c : Char) (hc : c.toNat < bound) : P c := by
  have own := h c.toNat hc
  rwa [Char.ofNat_toNat] at own

namespace BoundaryClass

theorem ite_ne {p : Prop} [Decidable p] {x y z : BoundaryClass} (hx : x ≠ z) (hy : y ≠ z) :
    (if p then x else y) ≠ z := by
  split <;> assumption

/-- The carriage return and the line feed have classes of their own. -/
theorem ofChar_ne {c : Char} (notReturn : c ≠ '\r') (notFeed : c ≠ '\n') :
    ofChar c ≠ .carriageReturn ∧ ofChar c ≠ .lineFeed := by
  unfold ofChar
  rw [if_neg notReturn, if_neg notFeed]
  constructor
  all_goals
    repeat' apply ite_ne
    all_goals decide

theorem eq_of_ofChar_return {c : Char} (h : ofChar c = .carriageReturn) : c = '\r' := by
  refine Decidable.byContradiction fun notReturn => (?_ : ofChar c ≠ .carriageReturn) h
  by_cases feed : c = '\n'
  · rw [feed]
    decide
  · exact (ofChar_ne notReturn feed).1

theorem eq_of_ofChar_feed {c : Char} (h : ofChar c = .lineFeed) : c = '\n' := by
  refine Decidable.byContradiction fun notFeed => (?_ : ofChar c ≠ .lineFeed) h
  by_cases isReturn : c = '\r'
  · rw [isReturn]
    decide
  · exact (ofChar_ne isReturn notFeed).2

/-- The rules treat no printable ASCII character in a way of its own. -/
theorem ofChar_printable {c : Char} (low : 32 ≤ c.toNat) (high : c.toNat < 127) :
    ofChar c = .other :=
  forall_char_lt (P := fun c => 32 ≤ c.toNat → ofChar c = .other) (by decide +kernel) c high low

theorem ofChar_plain {c : Char} (h : Grapheme.IsPlain c) :
    ofChar c = .other ∨ ofChar c = .lineFeed := by
  obtain ⟨low, high⟩ | rfl := h
  · exact .inl (ofChar_printable low high)
  · exact .inr (by decide)

end BoundaryClass

namespace Tail

variable {t : Tail}

/-- Nothing admits a carriage return. -/
theorem admits_carriageReturn (t : Tail) : t.admits .carriageReturn = false := by
  obtain ⟨last, picture, joined, halfFlag⟩ := t
  cases last <;> rfl

/-- A line feed is admitted behind a carriage return only. -/
theorem last_of_admits_lineFeed (h : t.admits .lineFeed = true) : t.last = .carriageReturn := by
  obtain ⟨last, picture, joined, halfFlag⟩ := t
  cases last <;> first | rfl | cases h

/-- Nothing else is admitted behind one. -/
theorem eq_lineFeed_of_admits (last : t.last = .carriageReturn) {b : BoundaryClass}
    (h : t.admits b = true) : b = .lineFeed := by
  obtain ⟨_, picture, joined, halfFlag⟩ := t
  subst last
  cases b <;> first | rfl | cases h

/-- Nothing is admitted behind a line feed. -/
theorem admits_of_last (last : t.last = .lineFeed) (b : BoundaryClass) : t.admits b = false := by
  obtain ⟨_, picture, joined, halfFlag⟩ := t
  subst last
  cases b <;> rfl

/-- Beside a plain character it matters only which classes stand on both sides. -/
theorem admits_seam {c d : Char} (last : t.last = .ofChar c)
    (plain : Grapheme.IsPlain c ∨ Grapheme.IsPlain d) :
    t.admits (.ofChar d) = (start (.ofChar c)).admits (.ofChar d) := by
  obtain ⟨_, picture, joined, halfFlag⟩ := t
  subst last
  obtain plain | plain := plain
  · obtain other | feed := BoundaryClass.ofChar_plain plain
    · rw [other]
      cases BoundaryClass.ofChar d <;> rfl
    · rw [feed]
      cases BoundaryClass.ofChar d <;> rfl
  · obtain other | feed := BoundaryClass.ofChar_plain plain
    · rw [other]
      cases BoundaryClass.ofChar c <;> rfl
    · rw [feed]
      cases BoundaryClass.ofChar c <;> rfl

/-- The tail after more code points. -/
def pushAll (t : Tail) (cs : List Char) : Tail := cs.foldl (fun t c => t.push (.ofChar c)) t

theorem last_pushAll {cs : List Char} {c : Char} (h : cs.getLast? = some c) :
    (t.pushAll cs).last = .ofChar c := by
  obtain ⟨front, rfl⟩ := List.getLast?_eq_some_iff.mp h
  rw [pushAll, List.foldl_append]
  rfl

end Tail

namespace Grapheme

variable {t : Tail} {cs marks : List Char} {gs hs : List Grapheme} {g h : Grapheme}

/-! ## Parts of a text -/

/-- Behind a line feed a text is read as if nothing stood before it. -/
theorem segment_start (cs : List Char) : segment (.start .lineFeed) cs = ([], splitChars cs) := by
  cases cs with
  | nil => rfl
  | cons c cs =>
    rw [segment, Tail.admits_of_last rfl, if_neg Bool.false_ne_true]
    rfl

/-- The first clusters are read alike without what is behind them. -/
theorem segment_front (read : segment t cs = (marks, gs ++ hs)) :
    segment t (marks ++ gs.flatMap chars) = (marks, gs) := by
  induction cs generalizing t marks gs with
  | nil =>
    obtain ⟨rfl, none⟩ := Prod.mk.inj read
    obtain ⟨rfl, -⟩ := List.append_eq_nil_iff.mp none.symm
    rfl
  | cons c cs ih =>
    rw [segment] at read
    split at read
    · rename_i admitted
      obtain ⟨rfl, clusters⟩ := Prod.mk.inj read
      rw [List.cons_append, segment, if_pos admitted, ih (Prod.ext rfl clusters)]
      rfl
    · rename_i refused
      obtain ⟨rfl, clusters⟩ := Prod.mk.inj read
      cases gs with
      | nil => rfl
      | cons g gs =>
        obtain ⟨rfl, rest⟩ := List.cons.inj clusters
        rw [List.nil_append, List.flatMap_cons, chars, List.cons_append, segment, if_neg refused,
          ih (Prod.ext rfl rest)]
        rfl

/-- The last clusters are read alike without what is in front of them. -/
theorem segment_back (read : segment t cs = (marks, gs ++ hs)) :
    splitChars (hs.flatMap chars) = hs := by
  induction cs generalizing t marks gs with
  | nil =>
    obtain ⟨-, rfl⟩ := List.append_eq_nil_iff.mp (Prod.mk.inj read).2.symm
    rfl
  | cons c cs ih =>
    have all := segment_chars t (c :: cs)
    rw [segment] at read
    split at read
    · exact ih (Prod.ext rfl (Prod.mk.inj read).2)
    · rename_i refused
      rw [segment, if_neg refused] at all
      have clusters := (Prod.mk.inj read).2
      cases gs with
      | nil =>
        obtain rfl : _ = hs := clusters
        exact congrArg splitChars all
      | cons g gs => exact ih (Prod.ext rfl (List.cons.inj clusters).2)

/-- More text behind the last cluster is read with it, and the others stay as they are. -/
theorem segment_append (read : segment t cs = (marks, gs ++ [g])) (ds : List Char) :
    segment t (cs ++ ds) = (marks, gs ++ splitChars (g.chars ++ ds)) := by
  induction cs generalizing t marks gs with
  | nil => exact absurd (Prod.mk.inj read).2 (by simp)
  | cons c cs ih =>
    rw [segment] at read
    split at read
    · rename_i admitted
      obtain ⟨rfl, clusters⟩ := Prod.mk.inj read
      rw [List.cons_append, segment, if_pos admitted, ih (Prod.ext rfl clusters)]
      rfl
    · rename_i refused
      obtain ⟨rfl, clusters⟩ := Prod.mk.inj read
      rw [List.cons_append, segment, if_neg refused]
      cases gs with
      | nil =>
        obtain ⟨rfl, none⟩ := List.cons.inj clusters
        have all := segment_chars (.start (.ofChar c)) cs
        rw [none, List.flatMap_nil, List.append_nil] at all
        rw [List.nil_append, chars, all]
        rfl
      | cons h gs =>
        obtain ⟨rfl, rest⟩ := List.cons.inj clusters
        rw [ih (Prod.ext rfl rest)]
        rfl

/-! ## Single clusters -/

/-- No boundary stands inside the cluster. -/
def IsClosed (g : Grapheme) : Prop := segment (.start (.ofChar g.lead)) g.marks = (g.marks, [])

theorem isClosed_iff : g.IsClosed ↔ splitChars g.chars = [g] := by
  obtain ⟨lead, marks⟩ := g
  constructor
  · intro closed
    have read : segment (.start (.ofChar lead)) marks = (marks, []) := closed
    rw [chars, splitChars, read]
    rfl
  · intro whole
    obtain ⟨first, rest⟩ := List.cons.inj whole
    exact Prod.ext (Grapheme.mk.inj first).2 rest

/-- Code points that open no cluster are read up to the first that does. -/
theorem segment_marks (inside : segment t marks = (marks, [])) (cs : List Char) :
    segment t (marks ++ cs) = (marks ++ (segment (t.pushAll marks) cs).1,
      (segment (t.pushAll marks) cs).2) := by
  induction marks generalizing t with
  | nil => rfl
  | cons c marks ih =>
    rw [segment] at inside
    rw [List.cons_append, segment]
    split at inside
    · rename_i admitted
      obtain ⟨same, none⟩ := Prod.mk.inj inside
      rw [if_pos admitted, ih (Prod.ext (List.cons.inj same).2 none)]
      rfl
    · cases (Prod.mk.inj inside).1

/-- What is inside an open cluster holds no carriage return, and a line feed only by itself and
behind one. -/
theorem line_of_segment (inside : segment t cs = (cs, [])) :
    '\r' ∉ cs ∧ ('\n' ∈ cs → cs = ['\n'] ∧ t.last = .carriageReturn) := by
  induction cs generalizing t with
  | nil => exact ⟨List.not_mem_nil, nofun⟩
  | cons c cs ih =>
    rw [segment] at inside
    split at inside
    · rename_i admitted
      obtain ⟨same, none⟩ := Prod.mk.inj inside
      have later : segment (t.push (.ofChar c)) cs = (cs, []) :=
        Prod.ext (List.cons.inj same).2 none
      obtain ⟨noReturn, feed⟩ := ih later
      have notReturn : c ≠ '\r' := by
        rintro rfl
        exact absurd (t.admits_carriageReturn.symm.trans admitted) (by decide)
      refine ⟨fun mem => (List.mem_cons.mp mem).elim (notReturn ·.symm) noReturn, fun mem => ?_⟩
      obtain rfl | mem := List.mem_cons.mp mem
      · refine ⟨?_, Tail.last_of_admits_lineFeed admitted⟩
        cases cs with
        | nil => rfl
        | cons d cs =>
          have last : (t.push (.ofChar '\n')).last = .lineFeed := by
            show BoundaryClass.ofChar '\n' = .lineFeed
            decide
          rw [segment, Tail.admits_of_last last] at later
          cases later
      · exact absurd (BoundaryClass.eq_of_ofChar_return (feed mem).2) notReturn
    · cases (Prod.mk.inj inside).1

/-- Line breaks, and halves of them, are in no cluster with other code points. -/
theorem IsClosed.eq_of_mem (closed : g.IsClosed) (mem : '\r' ∈ g.chars ∨ '\n' ∈ g.chars) :
    g = ⟨'\r', []⟩ ∨ g = ⟨'\n', []⟩ ∨ g = ⟨'\r', ['\n']⟩ := by
  obtain ⟨lead, marks⟩ := g
  have inside : segment (.start (.ofChar lead)) marks = (marks, []) := closed
  obtain ⟨noReturn, feed⟩ := line_of_segment inside
  -- A line feed among the marks is the only one, and the cluster is a pair.
  have pair (inner : '\n' ∈ marks) : (⟨lead, marks⟩ : Grapheme) = ⟨'\r', ['\n']⟩ := by
    obtain ⟨rfl, last⟩ := feed inner
    rw [BoundaryClass.eq_of_ofChar_return last]
  obtain mem | mem := mem <;> obtain rfl | mem := List.mem_cons.mp mem
  · cases marks with
    | nil => exact .inl rfl
    | cons c marks =>
      rw [segment] at inside
      split at inside
      · rename_i admitted
        have isFeed := Tail.eq_lineFeed_of_admits (by decide) admitted
        rw [BoundaryClass.eq_of_ofChar_feed isFeed] at pair ⊢
        exact .inr (.inr (pair List.mem_cons_self))
      · cases (Prod.mk.inj inside).1
  · exact absurd mem noReturn
  · cases marks with
    | nil => exact .inr (.inl rfl)
    | cons c marks =>
      rw [segment, Tail.admits_of_last (by decide)] at inside
      cases (Prod.mk.inj inside).1
  · exact .inr (.inr (pair mem))

/-- How a cluster ends. -/
def ending (g : Grapheme) : Tail := (Tail.start (.ofChar g.lead)).pushAll g.marks

theorem last_ending {c : Char} (last : g.chars.getLast? = some c) : g.ending.last = .ofChar c := by
  obtain ⟨lead, marks⟩ := g
  cases marks with
  | nil =>
    cases last
    rfl
  | cons mark marks => exact Tail.last_pushAll (List.getLast?_cons_cons.symm.trans last)

/-- Two clusters with a boundary between them. -/
theorem splitChars_append (closed : g.IsClosed) (closed' : h.IsClosed)
    (boundary : g.ending.admits (.ofChar h.lead) = false) :
    splitChars (g.chars ++ h.chars) = [g, h] := by
  have next : segment g.ending h.chars = ([], [h]) := by
    rw [chars, segment, if_neg (Bool.eq_false_iff.mp boundary), closed']
    rfl
  rw [chars, List.cons_append, splitChars, segment_marks closed]
  show (Reading.lead g.lead (g.marks ++ (segment g.ending h.chars).1,
    (segment g.ending h.chars).2)).2 = _
  rw [next, List.append_nil]
  rfl

/-- Two code points are one cluster or two. -/
theorem splitChars_pair (c d : Char) : splitChars [c, d] =
    if (Tail.start (.ofChar c)).admits (.ofChar d) then [⟨c, [d]⟩] else [⟨c, []⟩, ⟨d, []⟩] := by
  rw [splitChars, segment]
  split <;> rfl

end Grapheme

open Grapheme in
/-- Texts are split into their clusters. -/
instance : Segmenter where
  split := splitChars
  flatMap_chars_split := flatMap_chars_splitChars
  split_of_infix := by
    rintro cs gs ⟨before, after, parts⟩
    have read := segment_start cs
    rw [← parts] at read
    exact segment_back (segment_front read)
  split_append := by
    intro cs gs g ds last
    have read := segment_start cs
    rw [last] at read
    exact (Prod.mk.inj ((segment_start _).symm.trans (segment_append read ds))).2
  split_crlf := by decide
  eq_of_mem_chars whole := (isClosed_iff.mpr whole).eq_of_mem
  split_plain := by
    intro c d plain plain'
    rw [splitChars_pair, if_neg]
    obtain first | first := BoundaryClass.ofChar_plain plain <;>
      obtain second | second := BoundaryClass.ofChar_plain plain' <;>
      rw [first, second] <;> decide
  split_seam := by
    intro g h c whole whole' last plain apart
    refine splitChars_append (isClosed_iff.mpr whole) (isClosed_iff.mpr whole') ?_
    rw [Tail.admits_seam (last_ending last) plain]
    rw [splitChars_pair] at apart
    split at apart
    · cases apart
    · rename_i refused
      exact Bool.eq_false_iff.mpr refused

end Lox
