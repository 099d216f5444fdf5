import Lox.Proofs.Syntax.RoundTrip
import Lox.Proofs.Token.Lexicon

/-!
# No text breaks a contract

Tokens and trees made by hand may break the contracts between the stages. Those that come from a
source text do not: every tree that is read has a place at each node and holds no operator that
cannot be applied, and evaluating such a tree gives a value or a report. So every text is run to an
end that the session knows of.

* `Expr.Evaluable`, `Stmt.Evaluable`: trees that can be evaluated.
* `Derives.evaluable`: what is derived from placed tokens can be evaluated.
* `Expr.applyUnary_eq_error`, `Expr.applyBinary_eq_error`, `Expr.descend_eq_error`: how one step of
  an evaluation fails.
* `Expr.Evaluable.isReport`, `isRuntime_of_execute`: evaluating it breaks no contract.
* `arises_of_mem_parse`: what parsing reports, and which tokens it quotes.
* `floatOfText?_of_mem_scan`: numbers stand in the source as decimal texts.
* `Ending.Regular`: the ends of a run, each stage with reports of its own.
* `exists_evaluable`: what is read from a text.
* `follows_run`: how a run ends, from what scanning and parsing report.
* `run_regular`: the main statement.
-/

namespace Lox

/-! ## Trees that can be evaluated -/

/-- The operators that can be applied to two operands. -/
def Mark.applicable : List Mark :=
  [.plus, .minus, .star, .slash, .greater, .greaterEqual, .less, .lessEqual, .equalEqual,
    .bangEqual]

/-- Every node has a place, and every operator can be applied. -/
def Expr.Evaluable : Expr → Prop
  | .literal _ a | .named _ a => a.isSome
  | .grouping e a => a.isSome ∧ e.Evaluable
  | .unary o e a => a.isSome ∧ (o = .mark .minus ∨ o = .mark .bang) ∧ e.Evaluable
  | .binary l o r a =>
    a.isSome ∧ (∃ m ∈ Mark.applicable, o = .mark m) ∧ l.Evaluable ∧ r.Evaluable
  | .ternary c t f a => a.isSome ∧ c.Evaluable ∧ t.Evaluable ∧ f.Evaluable
  | .stray _ => False

/-- The statement has a place, and its expression can be evaluated. -/
def Stmt.Evaluable (st : Stmt) : Prop := st.span.isSome ∧ ∀ e ∈ st.body?, e.Evaluable

theorem Level.mem_applicable {l : Level} {m : Mark} (h : m ∈ l.operators) :
    m ∈ Mark.applicable := by
  revert h
  cases l <;> cases m <;> decide

/-- What is derived from placed tokens can be evaluated. -/
theorem Derives.evaluable {l : Level} {room : Nat} {e : Expr} {ts : List PlacedToken}
    (h : Derives l room e ts) (placed : ∀ t ∈ ts, t.span.isSome) : e.Evaluable := by
  induction h with
  | literal => exact placed _ List.mem_cons_self
  | named => exact placed _ List.mem_cons_self
  | grouping a b _ ih => exact ⟨rfl, ih fun t mem => placed t (by simp [mem])⟩
  | @unary _ o _ _ _ _ ho _ _ ih =>
    have operator : TokenKind.mark o = .mark .minus ∨ TokenKind.mark o = .mark .bang := by
      simp only [Grammar.unaryOperators, List.mem_cons, List.not_mem_nil, or_false] at ho
      obtain rfl | rfl := ho
      · exact .inr rfl
      · exact .inl rfl
    exact ⟨rfl, operator, ih fun t mem => placed t (by simp [mem])⟩
  | binary ho _ _ _ _ _ left right =>
    exact ⟨rfl, ⟨_, Level.mem_applicable ho, rfl⟩, left fun t mem => placed t (by simp [mem]),
      right fun t mem => placed t (by simp [mem])⟩
  | ternary _ _ _ _ _ _ _ condition whenTrue whenFalse =>
    exact ⟨rfl, condition fun t mem => placed t (by simp [mem]),
      whenTrue fun t mem => placed t (by simp [mem]),
      whenFalse fun t mem => placed t (by simp [mem])⟩
  | lift _ ih => exact ih placed

theorem StmtDerives.evaluable {levels : Nat} {st : Stmt} {ts : List PlacedToken}
    (h : StmtDerives levels st ts) (placed : ∀ t ∈ ts, t.span.isSome) : st.Evaluable := by
  cases h with
  | expression h =>
    refine ⟨rfl, ?_⟩
    rintro _ ⟨⟩
    exact h.evaluable fun t mem => placed t (by simp [mem])
  | print _ h =>
    refine ⟨rfl, ?_⟩
    rintro _ ⟨⟩
    exact h.evaluable fun t mem => placed t (by simp [mem])
  | bare => exact ⟨rfl, nofun⟩
  | declaration _ _ _ _ h =>
    refine ⟨rfl, ?_⟩
    rintro _ ⟨⟩
    exact h.evaluable fun t mem => placed t (by simp [mem])

/-! ## Evaluation -/

theorem Except.bind_eq_error {ε α β : Type} {x : Except ε α} {f : α → Except ε β} {stop : ε} :
    (x >>= f) = .error stop ↔ x = .error stop ∨ ∃ a, x = .ok a ∧ f a = .error stop := by
  cases x <;> simp [bind, Except.bind]

/-- The causes that running a program comes to. -/
def Cause.isRuntime : Cause → Bool
  | undefinedVariable _ | unaryOperand _ _ | binaryOperand _ _ _ | condition _ => true
  | tooDeepToEvaluate => true
  | _ => false

theorem Cause.kind_of_isRuntime {cause : Cause} (h : cause.isRuntime) : cause.kind = .runtime := by
  cases cause <;> first | rfl | cases h

/-- The evaluation stopped for a reason that the user is told of. -/
def Stop.IsReport : Stop → Prop
  | .diagnostic d => d.cause.isRuntime
  | .fault _ => False
  | .exhausted => True

namespace Expr

variable {stop : Stop}

/-- Applying a unary operator fails because of the operand, or the operator is none. -/
theorem applyUnary_eq_error {o : TokenKind} {v : Value} {a : Option Span}
    (failed : applyUnary o v a = .error stop) :
    (∃ m, stop = .diagnostic ⟨.unaryOperand m v, a⟩) ∨ stop = .fault (.unaryOperator o) := by
  unfold applyUnary at failed
  split at failed
  · cases failed
  · cases failed
    exact .inl ⟨_, rfl⟩
  · split at failed <;> cases failed
    exact .inl ⟨_, rfl⟩
  · cases failed
    exact .inr rfl

/-- Applying a binary operator fails because of the operands, or the operator is none. -/
theorem applyBinary_eq_error {o : TokenKind} {v w : Value} {a : Option Span}
    (failed : applyBinary o v w a = .error stop) :
    (∃ m, stop = .diagnostic ⟨.binaryOperand m v w, a⟩) ∨ stop = .fault (.binaryOperator o) := by
  unfold applyBinary at failed
  split at failed
  · unfold applyMark at failed
    split at failed
    · cases failed
    · cases failed
    · split at failed <;> cases failed
      · exact .inr rfl
      · exact .inl ⟨_, rfl⟩
  · cases failed
    exact .inr rfl

/-- Walking on fails because no frames are left, or the walk does with fewer frames. -/
theorem descend_eq_error {cost frames : Nat} {walk : Nat → Except Stop Value}
    (failed : descend cost frames walk = .error stop) :
    stop = .exhausted ∨ ∃ k ≤ frames, walk k = .error stop := by
  unfold descend at failed
  split at failed
  · exact .inr ⟨_, Nat.sub_le frames cost, failed⟩
  · cases failed
    exact .inl rfl

theorem isReport_applyUnary {o : TokenKind} (h : o = .mark .minus ∨ o = .mark .bang) {v : Value}
    {a : Option Span} (failed : applyUnary o v a = .error stop) : stop.IsReport := by
  obtain rfl | rfl := h <;> cases v <;> cases failed <;> rfl

theorem isReport_applyMark {m : Mark} (h : m ∈ Mark.applicable) {v w : Value} {a : Option Span}
    (failed : applyMark m v w a = .error stop) : stop.IsReport := by
  simp only [Mark.applicable, List.mem_cons, List.not_mem_nil, or_false] at h
  obtain rfl | rfl | rfl | rfl | rfl | rfl | rfl | rfl | rfl | rfl := h <;> cases v <;> cases w <;>
    cases failed <;> rfl

theorem isReport_descend {cost frames : Nat} {walk : Nat → Except Stop Value}
    (h : ∀ n, walk n = .error stop → stop.IsReport)
    (failed : descend cost frames walk = .error stop) :
    stop.IsReport := by
  obtain rfl | ⟨k, -, failed⟩ := descend_eq_error failed
  · trivial
  · exact h k failed

/-- Evaluating a tree that can be evaluated breaks no contract. -/
theorem Evaluable.isReport {e : Expr} (h : e.Evaluable) {lookup : String → Option Value}
    {frames : Nat} (failed : e.eval lookup frames = .error stop) : stop.IsReport := by
  induction e generalizing frames with
  | literal => cases failed
  | named =>
    rw [eval] at failed
    split at failed <;> cases failed
    rfl
  | grouping e a ih => exact isReport_descend (fun _ => ih h.2) failed
  | unary o e a ih =>
    obtain ⟨-, operator, body⟩ := h
    obtain failed | ⟨v, -, failed⟩ := Except.bind_eq_error.mp failed
    · exact isReport_descend (fun _ => ih body) failed
    · exact isReport_applyUnary operator failed
  | binary l o r a left right =>
    obtain ⟨-, ⟨m, operator, rfl⟩, hl, hr⟩ := h
    obtain failed | ⟨v, -, failed⟩ := Except.bind_eq_error.mp failed
    · exact isReport_descend (fun _ => left hl) failed
    obtain failed | ⟨w, -, failed⟩ := Except.bind_eq_error.mp failed
    · exact isReport_descend (fun _ => right hr) failed
    · exact isReport_applyMark operator failed
  | ternary c t f a condition whenTrue whenFalse =>
    obtain ⟨-, hc, ht, hf⟩ := h
    obtain failed | ⟨v, -, failed⟩ := Except.bind_eq_error.mp failed
    · exact isReport_descend (fun _ => condition hc) failed
    split at failed
    · exact isReport_descend (fun _ => whenTrue ht) failed
    · exact isReport_descend (fun _ => whenFalse hf) failed
    · cases failed
      rfl
  | stray => cases h

end Expr

/-- Running a statement that can be evaluated breaks no contract. -/
theorem Stmt.Evaluable.isReport [Stack] {st : Stmt} (h : st.Evaluable) {globals : Bindings}
    {stop : Stop} (failed : st.execute globals = .error stop) : stop.IsReport := by
  obtain ⟨placed, body⟩ := h
  cases st with
  | expression e =>
    obtain failed | ⟨v, -, ⟨⟩⟩ := Except.bind_eq_error.mp failed
    exact (body e rfl).isReport failed
  | print e =>
    obtain failed | ⟨v, -, ⟨⟩⟩ := Except.bind_eq_error.mp failed
    exact (body e rfl).isReport failed
  | declaration name initial =>
    cases initial with
    | none => cases failed
    | some e =>
      obtain failed | ⟨v, -, ⟨⟩⟩ := Except.bind_eq_error.mp failed
      exact (body e rfl).isReport failed
  | stray => cases placed

/-- A row of statements fails as the one that it stops at, and leaves what those before it left. -/
theorem exists_stop_of_execute [Stack] {statements : List Stmt} {globals : Bindings} {why : Failure}
    (failed : (execute globals statements).failure = some why) :
    let e := execute globals statements
    ∃ before st after stop, statements = before ++ st :: after ∧
      execute globals before = ⟨e.output, e.globals, none⟩ ∧
      st.execute e.globals = .error stop ∧ why = stop.failureAt st.span := by
  induction statements generalizing globals with
  | nil => cases failed
  | cons st statements ih =>
    rw [execute] at failed ⊢
    cases e : st.execute globals with
    | ok result =>
      rw [e] at failed
      obtain ⟨before, st', after, stop, rfl, done, later⟩ := ih failed
      refine ⟨st :: before, st', after, stop, rfl, ?_, later⟩
      rw [execute, e]
      simp only [done]
    | error stop =>
      rw [e] at failed
      cases failed
      exact ⟨[], st, statements, stop, rfl, rfl, e, rfl⟩

/-- Running statements that can be evaluated ends with a report at most. -/
theorem isRuntime_of_execute [Stack] {statements : List Stmt} (h : ∀ st ∈ statements, st.Evaluable)
    {globals : Bindings} {why : Failure}
    (failed : (execute globals statements).failure = some why) :
    ∃ d, why = .diagnostic d ∧ d.cause.isRuntime := by
  obtain ⟨before, st, after, stop, rfl, -, stopped, rfl⟩ := exists_stop_of_execute failed
  have report := (h st (by simp)).isReport stopped
  cases stop with
  | diagnostic d => exact ⟨d, rfl, report⟩
  | fault f => cases report
  -- The stack is exhausted within a statement, and it is the statement that is reported.
  | exhausted => exact ⟨_, rfl, rfl⟩

theorem kind_of_execute [Stack] {statements : List Stmt} (h : ∀ st ∈ statements, st.Evaluable)
    {globals : Bindings} {why : Failure}
    (failed : (execute globals statements).failure = some why) :
    ∃ d, why = .diagnostic d ∧ d.kind = .runtime := by
  obtain ⟨d, report, runtime⟩ := isRuntime_of_execute h failed
  exact ⟨d, report, Cause.kind_of_isRuntime runtime⟩

/-! ## Numbers -/

/-- A number is the one that its stretch of the source stands for. -/
theorem floatOfText?_of_mem_scan [Segmenter] {text : String} {t : PlacedToken}
    (h : t ∈ (scanText text).tokens) {x : Float} (number : t.token = .number x) :
    ∃ a, t.span = some a ∧ Decimal.floatOfText? ((Source.ofText text).textOf a) = some x := by
  obtain h | h := List.mem_append.mp h
  · obtain ⟨p, piece, token⟩ := List.mem_filterMap.mp h
    obtain ⟨reading, span⟩ := PlacedPiece.token?_eq_some.mp token
    refine ⟨p.span, span, ?_⟩
    rw [Source.textOf_span _ piece]
    exact Piece.floatOfText?_of_mem_cut (mem_of_mem_place piece) (number ▸ reading)
  · rw [List.mem_singleton.mp h] at number
    cases number

/-! ## Reports of the other stages -/

/-- What scanning reports is about scanning. -/
theorem Piece.kind_of_reading {p : Piece} {cause : Cause} (h : p.reading = .error cause) :
    cause.kind = .scanning := by
  unfold reading at h
  split at h
  · cases h
  · cases h
  · cases h
  split at h
  · cases h
  split at h
  · split at h <;> cases h
    rfl
  split at h
  · cases h
  split at h <;> cases h
  rfl

theorem kind_of_mem_scan [Segmenter] {text : String} {d : Diagnostic}
    (h : d ∈ (scanText text).errors) : d.kind = .scanning := by
  obtain ⟨p, -, diagnostic⟩ := List.mem_filterMap.mp h
  exact Piece.kind_of_reading (PlacedPiece.diagnostic?_eq_some.mp diagnostic).1

namespace TokenStream

variable {limit : Int} {s s' : TokenStream} {items : List Item} {ranges : List (List PlacedToken)}
  {d : Diagnostic}

theorem arises_of_round (hs : s.Ready) (h : round limit s = .ok (.rejected d, s')) :
    d.cause.Arises s.rest := by
  cases e : (Grammar.topDeclaration limit).run s with
  | done st s'' => simp [round, e] at h
  | failed why f =>
    obtain ⟨ts, passes, breaks⟩ := (Grammar.ensures_topDeclaration limit hs).failed e
    obtain ⟨d', rfl, -⟩ := breaks.reports
    have rejected : d' = d := by
      cases r : recover s f <;> simp_all [round, Except.map]
    rw [passes.rest]
    exact rejected ▸ (breaks.cause d' rfl).mono (List.subset_append_left ..)

/-- What is rejected is reported as a matter of parsing, and quotes the tokens to be read. -/
theorem Rounds.arises_of_rejected (h : Rounds limit s items ranges s') (hs : s.Guarded)
    (mem : .rejected d ∈ items) : d.cause.Arises s.rest := by
  induction h with
  | nil => cases mem
  | cons hr _ hround hp _ ih =>
    obtain rfl | mem := List.mem_cons.mp mem
    · exact arises_of_round (hs [] _ (.refl _) (by simp [hr])) hround
    · rw [hp.rest]
      exact (ih (hs.passes hp) mem).mono (List.subset_append_right ..)

end TokenStream

/-- What parsing reports is about parsing, and quotes tokens that were given. -/
theorem arises_of_mem_parse {tokens : List PlacedToken} {limit : Int} {p : Parsed}
    (placed : ∀ t ∈ tokens, t.span.isSome) (ended : ∃ t ∈ tokens, t.isEnd)
    (h : parse tokens limit = .ok p) {d : Diagnostic} (mem : d ∈ p.errors) :
    d.cause.Arises tokens := by
  obtain ⟨items, ranges, s', rounds, parsed⟩ := exists_rounds_of_parse limit placed ended
  obtain rfl : p = .ofItems items := Except.ok.inj (h.symm.trans parsed)
  obtain ⟨item, hitem, rejected⟩ := List.mem_filterMap.mp mem
  cases item with
  | statement st => cases rejected
  | rejected d' =>
    cases rejected
    have arises := rounds.arises_of_rejected (closed_ofTokens placed ended).guarded hitem
    exact arises.mono (List.filter_subset_self tokens)

/-! ## Whole runs -/

/-- The ends of a run that a session knows of: every stage reports what it found itself, and running
stops at the first report. -/
inductive Ending.Regular : Ending → Prop where
  | finished : Regular .finished
  | scan {ds : List Diagnostic} : ds ≠ [] → (∀ d ∈ ds, d.kind = .scanning) →
    Regular (.stopped .scan ds)
  | parse {ds : List Diagnostic} : ds ≠ [] → (∀ d ∈ ds, d.kind = .parsing) →
    Regular (.stopped .parse ds)
  | runtime {d : Diagnostic} : d.kind = .runtime → Regular (.stopped .runtime [d])

/-- What is read from a text without its comments is read, and can be evaluated. -/
theorem exists_evaluable [Segmenter] (text : String) (limit : Int) :
    ∃ p, parse (withoutComments (scanText text).tokens) limit = .ok p ∧
      ∀ st ∈ p.statements, st.Evaluable := by
  obtain ⟨p, parsed, derived⟩ :=
    exists_parse limit placed_withoutComments (exists_isEnd_withoutComments text)
  refine ⟨p, parsed, fun st mem => ?_⟩
  obtain ⟨ts, derives, within⟩ := derived st mem
  exact derives.evaluable fun t mem => placed_withoutComments t (within t mem).1

/-- How a run ends after scanning reported `scanned`, and parsing `parsed`: the first of them that
is not empty is what stops it. -/
inductive Ending.Follows (scanned parsed : List Diagnostic) : Ending → Prop where
  | scan : scanned ≠ [] → Follows scanned parsed (.stopped .scan scanned)
  | parse : scanned = [] → parsed ≠ [] → Follows scanned parsed (.stopped .parse parsed)
  | finished : scanned = [] → parsed = [] → Follows scanned parsed .finished
  | runtime {d : Diagnostic} : scanned = [] → parsed = [] → d.kind = .runtime →
    Follows scanned parsed (.stopped .runtime [d])

/-- Every run ends as its stages say. -/
theorem follows_run [Segmenter] [Stack] (globals : Bindings) {text : String} {limit : Int}
    {p : Parsed} (parsed : parse (withoutComments (scanText text).tokens) limit = .ok p) :
    (run globals text limit).ending.Follows (scanText text).errors p.errors := by
  obtain ⟨q, parsed', evaluable⟩ := exists_evaluable text limit
  obtain rfl : q = p := Except.ok.inj (parsed'.symm.trans parsed)
  rw [run]
  by_cases scanned : (scanText text).errors = []
  · by_cases read : q.errors = []
    · simp only [scanned, parsed, read, ne_eq, not_true_eq_false, if_false, runStatements]
      cases e : (execute globals q.statements).failure with
      | none => exact .finished rfl rfl
      | some why =>
        obtain ⟨d, rfl, kind⟩ := kind_of_execute evaluable e
        exact .runtime rfl rfl kind
    · simpa [scanned, parsed, read] using Ending.Follows.parse rfl read
  · simpa [scanned] using Ending.Follows.scan scanned

/-- So every run ends regularly. -/
theorem regular_run [Segmenter] [Stack] (globals : Bindings) (text : String) (limit : Int) :
    (run globals text limit).ending.Regular := by
  obtain ⟨p, parsed, -⟩ := exists_evaluable text limit
  have follows := follows_run globals parsed
  generalize (run globals text limit).ending = ending at follows ⊢
  cases follows with
  | scan some => exact .scan some fun d mem => kind_of_mem_scan mem
  | parse _ some =>
    refine .parse some fun d mem => ?_
    have ended := exists_isEnd_withoutComments text
    exact (arises_of_mem_parse placed_withoutComments ended parsed mem).kind
  | finished => exact .finished
  | runtime _ _ kind => exact .runtime kind

/-- Running a text ends regularly. The numbers in the text are decimal texts, and what is read from
it can be evaluated. -/
theorem run_regular [Segmenter] [Stack] (globals : Bindings) (text : String) (limit : Int) :
    (run globals text limit).ending.Regular ∧
    (∀ t ∈ (scanText text).tokens, ∀ x, t.token = .number x →
      ∃ a, t.span = some a ∧ Decimal.floatOfText? ((Source.ofText text).textOf a) = some x) ∧
    ∃ p, parse (withoutComments (scanText text).tokens) limit = .ok p ∧
      ∀ st ∈ p.statements, st.Evaluable :=
  ⟨regular_run globals text limit, fun _ mem _ => floatOfText?_of_mem_scan mem,
    exists_evaluable text limit⟩

end Lox
