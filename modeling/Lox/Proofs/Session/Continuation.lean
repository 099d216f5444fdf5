import Lox.Proofs.Syntax.Relocation
import Lox.Proofs.Syntax.RoundTrip
import Lox.Proofs.Token.LineBreak

/-!
# A session is one program

Two texts with a line feed between them, each of them without faults that scanning or parsing would
find, are read as the statements of the first one and then those of the second one, which stand
further down. So running them together is running the first one and, if it finishes, the second one
over the names that it leaves.

* `Expr.eval_relocate`, `execute_relocate`: trees at other places do the same, save that they report
  their own places.
* `execute_append`: statements behind others run over the names that those leave.
* `ReadsAs`: a text is read without a report.
* `exists_readsAs`: a text made of the tokens of statements.
* `ReadsAs.lineFeed`: two texts that are, with a line feed between them.
* `run_lineFeed`: the main statement.
-/

namespace Lox

/-! ## Trees at other places -/

section Relocation

variable (f : Location → Location)

/-- The reason to stop, with its place moved. -/
def Stop.relocate : Stop → Stop
  | .diagnostic d => .diagnostic (d.relocate f)
  | .fault why => .fault why
  | .exhausted => .exhausted

/-- The failure, with its place moved. -/
def Failure.relocate : Failure → Failure
  | .diagnostic d => .diagnostic (d.relocate f)
  | .fault why => .fault why

/-- The end of a run, with the places of its reports moved. -/
def Ending.relocate : Ending → Ending
  | .finished => .finished
  | .stopped stage errors => .stopped stage (errors.map (Diagnostic.relocate f))
  | .faulted why => .faulted why

theorem Stop.failureAt_relocate (stop : Stop) (a : Option Span) :
    (stop.relocate f).failureAt (a.map (Span.relocate f)) = (stop.failureAt a).relocate f := by
  cases stop <;> rfl

/-- The reason to stop, with another place. -/
def Stop.mapSpan (g : Option Span → Option Span) : Stop → Stop
  | .diagnostic d => .diagnostic ⟨d.cause, g d.span⟩
  | .fault why => .fault why
  | .exhausted => .exhausted

theorem Stop.relocate_eq : relocate f = mapSpan (Option.map (Span.relocate f)) := by
  funext stop
  cases stop <;> rfl

theorem Except.mapError_bind {ε ε' α β : Type} (g : ε → ε') (x : Except ε α)
    (k : α → Except ε β) :
    (x >>= k).mapError g = x.mapError g >>= fun a => (k a).mapError g := by
  cases x <;> rfl

namespace Expr

/-! Operators look at no places. -/

theorem applyUnary_mapSpan (g : Option Span → Option Span) (o : TokenKind) (v : Value)
    (a : Option Span) : applyUnary o v (g a) = (applyUnary o v a).mapError (Stop.mapSpan g) := by
  unfold applyUnary
  split
  · rfl
  · rfl
  · split <;> rfl
  · rfl

theorem applyMark_mapSpan (g : Option Span → Option Span) (m : Mark) (v w : Value)
    (a : Option Span) : applyMark m v w (g a) = (applyMark m v w a).mapError (Stop.mapSpan g) := by
  unfold applyMark
  split
  · rfl
  · rfl
  · split <;> rfl

theorem applyBinary_mapSpan (g : Option Span → Option Span) (o : TokenKind) (v w : Value)
    (a : Option Span) :
    applyBinary o v w (g a) = (applyBinary o v w a).mapError (Stop.mapSpan g) := by
  unfold applyBinary
  split
  · exact applyMark_mapSpan g _ v w a
  · rfl

theorem applyUnary_relocate (o : TokenKind) (v : Value) (a : Option Span) :
    applyUnary o v (a.map (Span.relocate f)) = (applyUnary o v a).mapError (Stop.relocate f) := by
  rw [Stop.relocate_eq]
  exact applyUnary_mapSpan _ o v a

theorem applyBinary_relocate (o : TokenKind) (v w : Value) (a : Option Span) :
    applyBinary o v w (a.map (Span.relocate f)) =
      (applyBinary o v w a).mapError (Stop.relocate f) := by
  rw [Stop.relocate_eq]
  exact applyBinary_mapSpan _ o v w a

theorem descend_relocate (cost frames : Nat) (walk : Nat → Except Stop Value) :
    descend cost frames (fun n => (walk n).mapError (Stop.relocate f)) =
      (descend cost frames walk).mapError (Stop.relocate f) := by
  unfold descend
  split <;> rfl

/-- An expression has the same value elsewhere, and reports its own places. -/
theorem eval_relocate (lookup : String → Option Value) (e : Expr) (frames : Nat) :
    (e.relocate f).eval lookup frames = (e.eval lookup frames).mapError (Stop.relocate f) := by
  induction e generalizing frames with
  | literal | stray => rfl
  | named name a =>
    rw [relocate, eval, eval]
    cases lookup name <;> rfl
  | grouping e a ih =>
    rw [relocate, eval, eval, funext ih, descend_relocate]
  | unary o e a ih =>
    rw [relocate, eval, eval, funext ih, descend_relocate, Except.mapError_bind]
    simp only [applyUnary_relocate]
  | binary l o r a ihl ihr =>
    rw [relocate, eval, eval, funext ihl, funext ihr, descend_relocate, descend_relocate]
    simp only [Except.mapError_bind, applyBinary_relocate]
  | ternary c t e a ihc iht ihe =>
    rw [relocate, eval, eval, funext ihc, funext iht, funext ihe, descend_relocate,
      descend_relocate, descend_relocate, Except.mapError_bind, span_relocate]
    -- A condition that is no truth value is reported at its own place, which has moved alike.
    congr 1
    funext value
    split <;> rfl

theorem evaluate_relocate [Stack] (globals : Bindings) (e : Expr) :
    (e.relocate f).evaluate globals = (e.evaluate globals).mapError (Stop.relocate f) :=
  e.eval_relocate f _ _

end Expr

/-- A statement does the same elsewhere. -/
theorem Stmt.execute_relocate [Stack] (globals : Bindings) (st : Stmt) :
    (st.relocate f).execute globals = (st.execute globals).mapError (Stop.relocate f) := by
  match st with
  | expression e a | print e a | declaration name (some e) a =>
    show (e.relocate f).evaluate globals >>= _ = Except.mapError _ (e.evaluate globals >>= _)
    rw [Except.mapError_bind, Expr.evaluate_relocate]
    rfl
  | declaration name none a | stray sort => rfl

/-- Statements do the same elsewhere, and report their own places. -/
theorem execute_relocate [Stack] (globals : Bindings) (statements : List Stmt) :
    execute globals (statements.map (Stmt.relocate f)) =
      { execute globals statements with
        failure := (execute globals statements).failure.map (Failure.relocate f) } := by
  induction statements generalizing globals with
  | nil => rfl
  | cons st statements ih =>
    rw [List.map_cons, execute, execute, st.execute_relocate]
    cases st.execute globals with
    | ok result => simp only [Except.mapError, ih]
    | error stop => simp [Except.mapError, Stop.failureAt_relocate]

end Relocation

/-- Statements behind others run over the names that those leave, if those finish. -/
theorem execute_append [Stack] (globals : Bindings) (ss ts : List Stmt) :
    execute globals (ss ++ ts) =
      match (execute globals ss).failure with
      | some _ => execute globals ss
      | none =>
        { execute (execute globals ss).globals ts with
          output := (execute globals ss).output ++
            (execute (execute globals ss).globals ts).output } := by
  induction ss generalizing globals with
  | nil => rfl
  | cons st ss ih =>
    rw [List.cons_append, execute, execute]
    cases st.execute globals with
    | error stop => rfl
    | ok result =>
      simp only [ih]
      split <;> simp [*]

/-! ## Texts that are read -/

/-- The text is scanned and parsed without a report, as these statements. -/
structure ReadsAs [Segmenter] (text : String) (limit : Int) (statements : List Stmt) : Prop where
  scanned : (scanText text).errors = []
  parsed : parse (withoutComments (scanText text).tokens) limit = .ok ⟨statements, []⟩

/-- The tokens that the parser sees before the end of a text. -/
def innerTokens [Segmenter] (text : String) : List PlacedToken :=
  withoutComments ((scanText text).tokens.filter fun t => !t.isEnd)

theorem withoutComments_scanText [Segmenter] (text : String) :
    withoutComments (scanText text).tokens =
      innerTokens text ++ [(Source.ofText text).endToken] := by
  have inner : ((scanText text).tokens.filter fun t => !t.isEnd) =
    (Source.ofText text).pieces.filterMap PlacedPiece.token? := Source.filter_tokens_scan _
  rw [innerTokens, inner, scanText, Source.scan, withoutComments, List.filter_append]
  rfl

theorem ended_innerTokens [Segmenter] (text : String) :
    Ended (innerTokens text) (Source.ofText text).endToken where
  stops := rfl
  inside t mem := by simpa using (List.mem_filter.mp (mem_withoutComments.mp mem).1).2
  placed t mem := by
    rw [← withoutComments_scanText] at mem
    exact placed_withoutComments t mem

/-- Of a printed statement the parser sees the yield. -/
theorem Stmt.filter_isSeen {st : Stmt} (h : st.Shaped) :
    st.printed.filter Token.isSeen = st.yield := by
  have seen : Token.isSeen = fun t => t.isInk && t.kind != .comment := rfl
  rw [seen, ← List.filter_filter, List.filter_comm, st.filter_printed, List.filter_eq_self]
  intro t mem
  have spoken := List.all_eq_true.mp (Stmt.all_yield h) t mem
  exact (Bool.and_eq_true_iff.mp spoken).1

/-- A text that is made of the tokens of statements, with white space and comments between them, is
read as these statements, if the parser can build them. -/
theorem exists_readsAs [Segmenter] {text : String} {limit : Int} {ts : List Token}
    {statements : List Stmt} (lexed : Lexed text.toList ts)
    (yields : ts.filter Token.isSeen = statements.flatMap Stmt.yield)
    (hshaped : ∀ st ∈ statements, st.Shaped)
    (hnest : ∀ st ∈ statements, ∀ e ∈ st.body?, e.nesting < limit.toNat) :
    ∃ statements', ReadsAs text limit statements' ∧
      statements'.map Stmt.bare = statements.map Stmt.bare := by
  obtain ⟨placed, stop, scanned, isEnd, spans, tokens⟩ := scan_of_lexed lexed
  have scanned : scanText text = ⟨placed ++ [stop], []⟩ := scanned
  have visible : withoutComments (placed ++ [stop]) = withoutComments placed ++ [stop] := by
    rw [withoutComments, List.filter_append, List.filter_singleton, beq_iff_eq.mp isEnd]
    rfl
  have inked : ((withoutComments placed).map PlacedToken.token).filter Token.isInk =
      statements.flatMap Stmt.yield := by
    have uncommented : (withoutComments placed).map PlacedToken.token =
        (placed.map PlacedToken.token).filter (·.kind != .comment) := by
      rw [List.filter_map]
      rfl
    rw [uncommented, tokens, List.filter_filter, ← yields]
    rfl
  obtain ⟨statements', parsed, -, same⟩ := exists_parse_of_yield isEnd
    (fun t mem => spans t (mem_withoutComments.mp (visible ▸ mem)).1) hshaped hnest inked
  refine ⟨statements', ⟨by rw [scanned], ?_⟩, same⟩
  rw [scanned, visible]
  exact parsed

/-- Two texts that are read without a report are so with a line feed between them. -/
theorem ReadsAs.lineFeed [Segmenter] {a b : String} {limit : Int} {ss ts : List Stmt}
    (ha : ReadsAs a limit ss) (h : a.toList.getLast? ≠ some '\r') (hb : ReadsAs b limit ts) :
    ReadsAs (a ++ "\n" ++ b) limit (ss ++ ts.map (Stmt.relocate (Source.ofText a).below)) := by
  have whole := scanText_lineFeed (b := b) h (by simp [ha.scanned])
  -- The line feed is white space, so the parser sees the tokens of both texts and nothing between.
  refine ⟨by simp [whole, ha.scanned, hb.scanned], ?_⟩
  have upper := ha.parsed
  have lower := hb.parsed
  rw [withoutComments_scanText] at upper lower
  have moved := (ended_innerTokens b).parse_relocate lower (Source.ofText a).below
  have both := (ended_innerTokens a).parse_behind ((ended_innerTokens b).relocate _) upper moved
  have visible : withoutComments (scanText (a ++ "\n" ++ b)).tokens = innerTokens a ++
      ⟨.whitespace .newline, some ⟨(Source.ofText a).endLocation, (Source.ofText a).below {}⟩⟩ ::
        ((innerTokens b).map (PlacedToken.relocate (Source.ofText a).below) ++
          [(Source.ofText b).endToken.relocate (Source.ofText a).below]) := by
    rw [whole, withoutComments, List.filter_append, List.filter_cons_of_pos rfl,
      PlacedToken.filter_relocate _ (· != .comment), ← withoutComments, ← withoutComments,
      withoutComments_scanText, List.map_append]
    rfl
  rw [visible, parse_whitespace rfl, ← List.append_assoc, both]

/-! ## Runs -/

/-- The end of a run that was not stopped before, by how its statements failed. -/
def Ending.ofFailure : Option Failure → Ending
  | none => .finished
  | some (.diagnostic d) => .stopped .runtime [d]
  | some (.fault why) => .faulted why

theorem Ending.ofFailure_eq_finished {why : Option Failure} :
    ofFailure why = .finished ↔ why = none := by
  rcases why with _ | _ | _ <;> simp [ofFailure]

theorem Ending.ofFailure_relocate (f : Location → Location) (why : Option Failure) :
    ofFailure (why.map (Failure.relocate f)) = (ofFailure why).relocate f := by
  rcases why with _ | _ | _ <;> rfl

/-- Running a text that is read without a report is running its statements. -/
theorem ReadsAs.run [Segmenter] [Stack] {text : String} {limit : Int} {statements : List Stmt}
    (h : ReadsAs text limit statements) (globals : Bindings) :
    (run globals text limit).output = (execute globals statements).output ∧
    (run globals text limit).globals = (execute globals statements).globals ∧
    (run globals text limit).ending = .ofFailure (execute globals statements).failure := by
  simp only [Lox.run, h.scanned, h.parsed, ne_eq, not_true_eq_false, if_false, runStatements]
  rcases (execute globals statements).failure with _ | _ | _ <;> exact ⟨rfl, rfl, rfl⟩

/-- Two texts with a line feed between them, each without faults that scanning or parsing would
find, are run one after the other. If the first one does not finish, it is all that is run. If it
does, the second one is run over the names that it leaves, and what that reports stands further
down. -/
theorem run_lineFeed [Segmenter] [Stack] {a b : String} {limit : Int} {ss ts : List Stmt}
    (h : a.toList.getLast? ≠ some '\r') (ha : ReadsAs a limit ss) (hb : ReadsAs b limit ts)
    (globals : Bindings) :
    let first := run globals a limit
    let second := run first.globals b limit
    let whole := run globals (a ++ "\n" ++ b) limit
    (first.ending ≠ .finished →
      whole.output = first.output ∧ whole.globals = first.globals ∧ whole.ending = first.ending) ∧
    (first.ending = .finished →
      whole.output = first.output ++ second.output ∧ whole.globals = second.globals ∧
        whole.ending = second.ending.relocate (Source.ofText a).below) := by
  intro first second whole
  obtain ⟨output₁, names₁, ending₁⟩ := ha.run globals
  obtain ⟨output₂, names₂, ending₂⟩ := hb.run first.globals
  obtain ⟨output, names, ending⟩ := (ha.lineFeed h hb).run globals
  rw [execute_append] at output names ending
  cases stopped : (execute globals ss).failure with
  | some why =>
    rw [stopped] at output names ending ending₁
    have unfinished : first.ending ≠ .finished := by
      rw [ending₁, ne_eq, Ending.ofFailure_eq_finished]
      nofun
    refine ⟨fun _ => ?_, fun finished => absurd finished unfinished⟩
    exact ⟨output.trans output₁.symm, names.trans names₁.symm, by rw [ending, ending₁, stopped]⟩
  | none =>
    rw [stopped] at output names ending ending₁
    simp only [execute_relocate, ← names₁, ← output₁] at output names ending
    rw [Ending.ofFailure_relocate] at ending
    refine ⟨fun unfinished => absurd ending₁ unfinished, fun _ => ⟨?_, ?_, ?_⟩⟩
    · exact output.trans (congrArg (first.output ++ ·) output₂.symm)
    · exact names.trans names₂.symm
    · exact ending.trans (congrArg (Ending.relocate _) ending₂.symm)

/-- A variable that nothing defines, used on the second line behind one that the first line
defines. -/
theorem run_lineFeed_undefined :
    let whole := run {} ("var x; // x" ++ "\n" ++ "print x; y;") 48
    whole.output = ["Nil"] ∧ whole.ending =
      .stopped .runtime [⟨.undefinedVariable "y", some ⟨⟨2, 10, 21⟩, ⟨2, 11, 22⟩⟩⟩] := by
  have first : ReadsAs "var x; // x" 48 [.declaration "x" none (some ⟨{}, ⟨1, 7, 6⟩⟩)] :=
    ⟨by decide +kernel, by decide +kernel⟩
  have second : ReadsAs "print x; y;" 48
      [.print (.named "x" (some ⟨⟨1, 7, 6⟩, ⟨1, 8, 7⟩⟩)) (some ⟨{}, ⟨1, 9, 8⟩⟩),
        .expression (.named "y" (some ⟨⟨1, 10, 9⟩, ⟨1, 11, 10⟩⟩))
          (some ⟨⟨1, 10, 9⟩, ⟨1, 12, 11⟩⟩)] :=
    ⟨by decide +kernel, by decide +kernel⟩
  obtain ⟨output, -, ending⟩ :=
    (run_lineFeed (by decide +kernel) first second {}).2 (by decide +kernel)
  exact ⟨output.trans (by decide +kernel), ending.trans (by decide +kernel)⟩

end Lox
