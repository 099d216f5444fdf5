import Lox.Proofs.Source.Places
import Lox.Source.Cursor

/-!
# The course of a cursor

A cursor keeps two things, the number of graphemes that it has read and the span since it was last
closed, and each operation moves both or none. So they stay in step over any course of operations:
the spans that were closed and the one that is open lie end to end from the start of the source to
where the cursor stands, and each holds what was read while it was open.

* `Cursor.Operation`, `Cursor.Answer`, `Cursor.Event`: what can be asked of a cursor, and what it
  answers. `Cursor.closedSpans` and `Cursor.Readings` are what the answers tell: the spans that were
  closed, and the graphemes that were read.
* `Cursor.between`: the cursor that was closed at one place of a source and stands at another one.
* `Cursor.exists_step`: what one operation can do to it (`Cursor.Step`).
* `Cursor.exists_covered`: what a course of operations leaves behind (`Cursor.Covered`), by one step
  after the other.
* `Cursor.after_in_step`: the main statement.
-/

namespace Lox

/-! ## Spans and places -/

/-- The spans lie end to end from one location to another, and some may be empty. -/
def Span.EndToEnd : Location → List Span → Location → Prop
  | l, [], m => l = m
  | l, s :: ss, m => s.start = l ∧ s.start.index ≤ s.stop.index ∧ EndToEnd s.stop ss m

/-- One more span, where the others end. -/
theorem Span.EndToEnd.concat {l : Location} {ss : List Span} {s : Span}
    (h : EndToEnd l ss s.start) (forward : s.start.index ≤ s.stop.index) :
    EndToEnd l (ss ++ [s]) s.stop := by
  induction ss generalizing l with
  | nil =>
    have start : l = s.start := h
    exact ⟨start.symm, forward, rfl⟩
  | cons t ss ih =>
    obtain ⟨start, ascending, rest⟩ := h
    exact ⟨start, ascending, ih rest⟩

/-- The place behind the next grapheme. -/
theorem Source.locate_succ {s : Source} {j : Nat} {g : Grapheme} (h : s.graphemes[j]? = some g) :
    s.locate (j + 1) = (s.locate j).advance g.chars := by
  rw [locate, locate, List.take_add_one, h, Option.toList_some, Location.behind_concat]

theorem Grapheme.ofText?_eq_some_iff {t : String} {g : Grapheme} :
    ofText? t = some g ↔ g.text = t := by
  constructor
  · intro h
    rw [text, chars_ofText? h, String.ofList_toList]
  · rintro rfl
    rw [ofText?, text, String.toList_ofList]
    rfl

namespace Cursor

/-! ## Operations and answers -/

/-- What can be asked of a cursor. -/
inductive Operation where
  | atEnd
  | peek (ahead : Int)
  | advance
  | advanceIf (expected : String)
  | lexeme
  | close
  deriving DecidableEq, Repr

/-- What a cursor answers. Looking too far behind fails. -/
inductive Answer where
  | truth (holds : Bool)
  | grapheme (seen : Option Grapheme)
  | failure
  | text (lexeme : String)
  | span (closed : Span)
  deriving DecidableEq, Repr

/-- An operation, and what it was answered. -/
structure Event where
  operation : Operation
  answer : Answer
  deriving DecidableEq, Repr

/-- One operation: its answer, and the cursor behind it. -/
def perform (c : Cursor) : Operation → Answer × Cursor
  | .atEnd => (.truth c.atEnd, c)
  | .peek ahead => ((c.peekAt ahead).elim .failure .grapheme, c)
  | .advance => (.grapheme c.advance.1, c.advance.2)
  | .advanceIf expected =>
    (.truth (c.advanceIf (Grapheme.ofText? expected)).1,
      (c.advanceIf (Grapheme.ofText? expected)).2)
  | .lexeme => (.text c.lexeme, c)
  | .close => (.span c.close.1, c.close.2)

/-- The cursor behind a course of operations. -/
def after (c : Cursor) (ops : List Operation) : Cursor :=
  ops.foldl (fun c op => (c.perform op).2) c

/-- The operations with their answers. -/
def events (c : Cursor) : List Operation → List Event
  | [] => []
  | op :: ops => ⟨op, (c.perform op).1⟩ :: (c.perform op).2.events ops

theorem after_concat (c : Cursor) (ops : List Operation) (op : Operation) :
    c.after (ops ++ [op]) = ((c.after ops).perform op).2 := by
  rw [after, List.foldl_append]
  rfl

theorem events_concat (c : Cursor) (ops : List Operation) (op : Operation) :
    c.events (ops ++ [op]) = c.events ops ++ [⟨op, ((c.after ops).perform op).1⟩] := by
  induction ops generalizing c with
  | nil => rfl
  | cons first ops ih =>
    rw [List.cons_append, events, ih, events]
    rfl

/-! ## What the answers tell -/

/-- The span that was closed. -/
def Event.closed? : Event → Option Span
  | ⟨.close, .span closed⟩ => some closed
  | _ => none

/-- The graphemes that were read: the one that is answered, or the one that was expected if it was
there. -/
def Event.read : Event → List Grapheme
  | ⟨.advance, .grapheme seen⟩ => seen.toList
  | ⟨.advanceIf expected, .truth true⟩ => (Grapheme.ofText? expected).toList
  | _ => []

theorem Event.closed?_of_ne {e : Event} (h : e.operation ≠ .close) : e.closed? = none := by
  obtain ⟨op, answer⟩ := e
  cases op with
  | close => exact absurd rfl h
  | _ => rfl

/-- The spans that were closed, one after another. -/
def closedSpans (es : List Event) : List Span := es.filterMap Event.closed?

theorem closedSpans_close (es : List Event) (closed : Span) :
    closedSpans (es ++ [⟨.close, .span closed⟩]) = closedSpans es ++ [closed] := by
  rw [closedSpans, List.filterMap_append]
  rfl

theorem closedSpans_of_ne (es : List Event) {e : Event} (h : e.operation ≠ .close) :
    closedSpans (es ++ [e]) = closedSpans es := by
  rw [closedSpans, List.filterMap_append, List.filterMap_cons_none (Event.closed?_of_ne h),
    List.filterMap_nil, List.append_nil]
  rfl

/-- What was read, parted where the cursor was closed. -/
structure Readings where
  closed : List (List Grapheme) := []
  /-- Since the cursor was last closed. -/
  opened : List Grapheme := []

namespace Readings

/-- With what one more event tells. -/
def note (r : Readings) (e : Event) : Readings :=
  if e.operation = .close then ⟨r.closed ++ [r.opened], []⟩ else ⟨r.closed, r.opened ++ e.read⟩

/-- What events tell, one after another. -/
def ofEvents (es : List Event) : Readings := es.foldl note {}

theorem ofEvents_concat (es : List Event) (e : Event) :
    ofEvents (es ++ [e]) = (ofEvents es).note e := by
  rw [ofEvents, List.foldl_append]
  rfl

theorem ofEvents_close (es : List Event) (a : Answer) :
    ofEvents (es ++ [⟨.close, a⟩]) =
      ⟨(ofEvents es).closed ++ [(ofEvents es).opened], []⟩ := by
  rw [ofEvents_concat, note, if_pos rfl]

theorem ofEvents_of_ne (es : List Event) {e : Event} (h : e.operation ≠ .close) :
    ofEvents (es ++ [e]) = ⟨(ofEvents es).closed, (ofEvents es).opened ++ e.read⟩ := by
  rw [ofEvents_concat, note, if_neg h]

end Readings

/-! ## One operation -/

/-- The cursor that was last closed at the `i`-th place of a source and stands at the `j`-th. -/
def between (s : Source) (i j : Nat) : Cursor := ⟨s, j, ⟨s.locate i, s.locate j⟩⟩

/-- What may happen to a cursor that was closed at the `i`-th place and stands at the `j`-th, and
which places these are then: it is closed, or the next grapheme is read, or nothing is moved. -/
inductive Step (s : Source) (i j : Nat) : Event → Nat → Nat → Prop
  | close : Step s i j ⟨.close, .span ⟨s.locate i, s.locate j⟩⟩ j j
  | read {e : Event} {g : Grapheme} (opened : e.operation ≠ .close)
      (next : s.graphemes[j]? = some g) (read : e.read = [g]) : Step s i j e i (j + 1)
  | stay {e : Event} (opened : e.operation ≠ .close) (read : e.read = []) : Step s i j e i j

section Between

variable (s : Source) (i j : Nat)

@[simp] theorem peek_between : (between s i j).peek = s.graphemes[j]? := rfl

/-- One grapheme is read if one is left. -/
theorem advance_between : (between s i j).advance =
    (s.graphemes[j]?, between s i (if j < s.length then j + 1 else j)) := by
  rw [advance, peek_between]
  by_cases left : j < s.length
  · have next : s.graphemes[j]? = some s.graphemes[j] := List.getElem?_eq_getElem left
    rw [if_pos left, next, between, between, Source.locate_succ next]
    rfl
  · rw [if_neg left, List.getElem?_eq_none (Nat.le_of_not_lt left)]

/-- One grapheme is read if it is the expected one. At the end no text is all that can be expected,
and nothing is read. -/
theorem advanceIf_between (expected : String) :
    (between s i j).advanceIf (Grapheme.ofText? expected) =
      (decide (s.graphemes[j]? = Grapheme.ofText? expected),
        between s i (if s.graphemes[j]?.map Grapheme.text = some expected then j + 1 else j)) := by
  rw [advanceIf, peek_between, advance_between]
  by_cases same : s.graphemes[j]? = Grapheme.ofText? expected
  · rw [if_pos same, decide_eq_true same]
    by_cases left : j < s.length
    · have next : s.graphemes[j]? = some s.graphemes[j] := List.getElem?_eq_getElem left
      have text : s.graphemes[j].text = expected :=
        Grapheme.ofText?_eq_some_iff.mp (same.symm.trans next)
      rw [if_pos left, next, Option.map_some, text, if_pos rfl]
    · have last : s.graphemes[j]? = none := List.getElem?_eq_none (Nat.le_of_not_lt left)
      rw [if_neg left, last, Option.map_none, if_neg nofun]
  · have other : s.graphemes[j]?.map Grapheme.text ≠ some expected := by
      intro found
      obtain ⟨g, next, text⟩ := Option.map_eq_some_iff.mp found
      exact same (next.trans (Grapheme.ofText?_eq_some_iff.mpr text).symm)
    rw [if_neg same, decide_eq_false same, if_neg other]

variable {s i j} in
/-- What was read since the cursor was closed. -/
theorem lexeme_between (hij : i ≤ j) (hj : j ≤ s.length) :
    (between s i j).lexeme = Grapheme.join ((s.graphemes.take j).drop i) := by
  rw [lexeme, between, Source.textOf, s.slice_locate hij hj]

/-- Every operation is such a step, also for what its answer tells. -/
theorem exists_step (op : Operation) :
    ∃ i' j', Step s i j ⟨op, ((between s i j).perform op).1⟩ i' j' ∧
      ((between s i j).perform op).2 = between s i' j' := by
  cases op with
  | atEnd => exact ⟨i, j, .stay nofun rfl, rfl⟩
  | peek ahead => exact ⟨i, j, .stay nofun rfl, rfl⟩
  | lexeme => exact ⟨i, j, .stay nofun rfl, rfl⟩
  | close => exact ⟨j, j, .close, rfl⟩
  | advance =>
    rw [perform, advance_between]
    by_cases left : j < s.length
    · have next : s.graphemes[j]? = some s.graphemes[j] := List.getElem?_eq_getElem left
      rw [if_pos left, next]
      exact ⟨i, j + 1, .read nofun next rfl, rfl⟩
    · rw [if_neg left, List.getElem?_eq_none (Nat.le_of_not_lt left)]
      exact ⟨i, j, .stay nofun rfl, rfl⟩
  | advanceIf expected =>
    rw [perform, advanceIf_between]
    by_cases found : s.graphemes[j]?.map Grapheme.text = some expected
    · obtain ⟨g, next, rfl⟩ := Option.map_eq_some_iff.mp found
      have own : Grapheme.ofText? g.text = some g := Grapheme.ofText?_eq_some_iff.mpr rfl
      rw [if_pos found, next, own, decide_eq_true rfl]
      refine ⟨i, j + 1, .read nofun next ?_, rfl⟩
      rw [Event.read, own, Option.toList_some]
    · rw [if_neg found]
      refine ⟨i, j, .stay nofun ?_, rfl⟩
      by_cases same : s.graphemes[j]? = Grapheme.ofText? expected
      -- A yes tells of no grapheme here: it is said at the end, where no text was expected.
      · have nothing : Grapheme.ofText? expected = none := by
          rw [Option.eq_none_iff_forall_ne_some]
          intro g own
          have text : g.text = expected := Grapheme.ofText?_eq_some_iff.mp own
          exact found (Option.map_eq_some_iff.mpr ⟨g, same.trans own, text⟩)
        rw [decide_eq_true same, Event.read, nothing, Option.toList_none]
      · rw [decide_eq_false same]
        rfl

end Between

/-! ## Many operations -/

/-- What events leave behind if the cursor was closed at the `i`-th place and stands at the `j`-th:
the spans that were closed lie end to end up to the first of these and hold what was read until
then, and what was read since then lies between the two. -/
structure Covered (s : Source) (i j : Nat) (es : List Event) : Prop where
  le : i ≤ j
  le_length : j ≤ s.length
  endToEnd : Span.EndToEnd {} (closedSpans es) (s.locate i)
  slices : (closedSpans es).map s.slice = (Readings.ofEvents es).closed
  closed : (Readings.ofEvents es).closed.flatten = s.graphemes.take i
  opened : (Readings.ofEvents es).opened = (s.graphemes.take j).drop i

namespace Covered

variable {s : Source} {i j : Nat} {es : List Event}

theorem nil (s : Source) : Covered s 0 0 [] where
  le := Nat.le_refl 0
  le_length := Nat.zero_le _
  endToEnd := rfl
  slices := rfl
  closed := rfl
  opened := rfl

/-- The span that is open goes on where the last one was closed. -/
theorem index_le (h : Covered s i j es) : (s.locate i).index ≤ (s.locate j).index := by
  rw [Source.index_locate (h.le.trans h.le_length), Source.index_locate h.le_length]
  exact Int.ofNat_le.mpr h.le

/-- The open span holds what was read since the cursor was closed. -/
theorem slice_eq (h : Covered s i j es) :
    s.slice ⟨s.locate i, s.locate j⟩ = (Readings.ofEvents es).opened := by
  rw [s.slice_locate h.le h.le_length, h.opened]

/-- All that was read are the graphemes up to where the cursor stands. -/
theorem flatten_append (h : Covered s i j es) :
    (Readings.ofEvents es).closed.flatten ++ (Readings.ofEvents es).opened =
      s.graphemes.take j := by
  have first : s.graphemes.take i = (s.graphemes.take j).take i := by
    rw [List.take_take, Nat.min_eq_left h.le]
  rw [h.closed, h.opened, first, List.take_append_drop]

/-- An event that closes nothing leaves the closed spans as they are. -/
theorem note {e : Event} {k : Nat} (h : Covered s i j es) (opened : e.operation ≠ .close)
    (hik : i ≤ k) (hk : k ≤ s.length)
    (read : (Readings.ofEvents es).opened ++ e.read = (s.graphemes.take k).drop i) :
    Covered s i k (es ++ [e]) := by
  have spans := closedSpans_of_ne es opened
  have readings := Readings.ofEvents_of_ne es opened
  refine ⟨hik, hk, ?_, ?_, ?_, ?_⟩
  · rw [spans]
    exact h.endToEnd
  · rw [spans, readings, h.slices]
  · rw [readings, h.closed]
  · rw [readings, read]

/-- One step keeps it. -/
theorem step {e : Event} {i' j' : Nat} (h : Covered s i j es) (taken : Step s i j e i' j') :
    Covered s i' j' (es ++ [e]) := by
  cases taken with
  | close =>
    have spans := closedSpans_close es ⟨s.locate i, s.locate j⟩
    have readings := Readings.ofEvents_close es (.span ⟨s.locate i, s.locate j⟩)
    refine ⟨Nat.le_refl j, h.le_length, ?_, ?_, ?_, ?_⟩
    · rw [spans]
      exact Span.EndToEnd.concat h.endToEnd h.index_le
    · rw [spans, readings, List.map_append, h.slices, List.map_singleton, h.slice_eq]
    · rw [readings, List.flatten_append, List.flatten_singleton, h.flatten_append]
    · rw [readings, List.drop_eq_nil_of_le (List.length_take_le _ _)]
  | read opened next read =>
    have here : j < s.length := (List.getElem?_eq_some_iff.mp next).1
    have reached : i ≤ (s.graphemes.take j).length := by
      rw [List.length_take_of_le h.le_length]
      exact h.le
    apply h.note opened (h.le.trans (Nat.le_succ j)) here
    rw [h.opened, read, List.take_add_one, next, Option.toList_some,
      List.drop_append_of_le_length reached]
  | stay opened read =>
    apply h.note opened h.le h.le_length
    rw [h.opened, read, List.append_nil]

end Covered

/-- Over any course of operations the cursor stands between two places of its source, and what the
operations leave behind covers the source up to there. -/
theorem exists_covered (s : Source) (ops : List Operation) :
    ∃ i j, Covered s i j (events { source := s } ops) ∧
      after { source := s } ops = between s i j := by
  induction ops using List.reverseRecOn with
  | nil => exact ⟨0, 0, .nil s, rfl⟩
  | append_singleton ops op ih =>
    obtain ⟨i, j, covered, stands⟩ := ih
    obtain ⟨i', j', taken, stands'⟩ := exists_step s i j op
    rw [after_concat, events_concat, stands]
    exact ⟨i', j', covered.step taken, stands'⟩

/-! ## In step -/

/-- A cursor stays in step with itself over any course of operations: the end of its span is where
it stands, and this is not past the end of the source. The spans that were closed and the one that
is open lie end to end from the start of the source to there, and each holds what was read while it
was open; together they are what stands before the cursor. Wherever it stands, `advance` reads one
grapheme if one is left, `advanceIf` reads it if it is the expected one, `close` makes the span
empty, and nothing else is ever moved. -/
theorem after_in_step [Segmenter] (text : String) (ops : List Operation) :
    let s := Source.ofText text
    let c := after { source := s } ops
    let es := events { source := s } ops
    let readings := Readings.ofEvents es
    let forward : Cursor :=
      { c with index := c.index + 1, span := ⟨c.span.start, s.locate (c.index + 1)⟩ }
    c.source = s ∧ c.span.stop.index = c.index ∧ 0 ≤ c.span.start.index ∧
    c.span.start.index ≤ c.index ∧ c.index ≤ s.length ∧
    Span.EndToEnd {} (closedSpans es ++ [c.span]) (s.locate c.index) ∧
    (closedSpans es ++ [c.span]).map s.slice = readings.closed ++ [readings.opened] ∧
    (readings.closed ++ [readings.opened]).flatten = s.graphemes.take c.index ∧
    c.perform .lexeme = (.text (Grapheme.join readings.opened), c) ∧
    c.perform .atEnd = (.truth (c.index = s.length), c) ∧
    (∀ ahead, (c.perform (.peek ahead)).2 = c) ∧
    (∀ ahead : Nat, (c.perform (.peek ahead)).1 = .grapheme s.graphemes[c.index + ahead]?) ∧
    c.perform .advance =
      (.grapheme s.graphemes[c.index]?, if c.index < s.length then forward else c) ∧
    (∀ expected, c.perform (.advanceIf expected) =
      (.truth (s.graphemes[c.index]? = Grapheme.ofText? expected),
        if s.graphemes[c.index]?.map Grapheme.text = some expected then forward else c)) ∧
    c.perform .close = (.span c.span, { c with span := ⟨c.span.stop, c.span.stop⟩ }) := by
  intro s c es readings forward
  obtain ⟨i, j, covered, stands⟩ := exists_covered s ops
  -- Where the cursor stands and where it would go on to are both told by places of the source.
  have here : c = between s i j := stands
  have next : forward = between s i (j + 1) := by
    simp only [forward, here]
    rfl
  clear_value c forward
  subst here next
  have start : (s.locate i).index = i := Source.index_locate (covered.le.trans covered.le_length)
  refine ⟨rfl, Source.index_locate covered.le_length, ?_, ?_, covered.le_length,
    covered.endToEnd.concat covered.index_le, ?_, ?_, ?_, ?_, fun ahead => rfl, fun ahead => ?_, ?_,
    fun expected => ?_, rfl⟩
  · exact start ▸ Int.natCast_nonneg i
  · exact start ▸ Int.ofNat_le.mpr covered.le
  · rw [List.map_append, covered.slices, List.map_singleton]
    exact congrArg (fun gs => readings.closed ++ [gs]) covered.slice_eq
  · rw [List.flatten_append, List.flatten_singleton]
    exact covered.flatten_append
  · rw [perform, lexeme_between covered.le covered.le_length, ← covered.opened]
  · have last : s.length ≤ j ↔ j = s.length := ⟨covered.le_length.antisymm, Eq.ge⟩
    exact congrArg (fun holds => (Answer.truth holds, between s i j)) (decide_eq_decide.mpr last)
  · rw [perform, peekAt_natCast]
    rfl
  · rw [perform, advance_between, apply_ite (between s i)]
    rfl
  · rw [perform, advanceIf_between, apply_ite (between s i)]
    rfl

/-- Behind the last grapheme, no text is found where none is expected, and the cursor stays. -/
example : let c : Cursor := { source := .ofText "" }
    c.perform (.advanceIf "") = (.truth true, c) := by decide

end Cursor

end Lox
