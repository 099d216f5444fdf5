import Lox.Proofs.Session.Effects
import Lox.Proofs.Syntax.Extent

/-!
# Running blames the innermost failing expression

A run that stops while running reports one expression of the statement that it stops at. That is a
name or an operator whose operands all have values and which fails on its own with the same report,
or it is the condition of a choice and has a value that is no truth value. Evaluation came to it: it
stands in no side of a choice that was not chosen, and behind no operand that failed.

* `Expr.Approximates`: an outcome, or the stack was exhausted before it.
* `Expr.eval_mono`: more frames make no difference to an evaluation that does not exhaust the stack.
* `Expr.Reaches`: evaluating an expression comes to evaluating a node of it.
* `Expr.Reaches.approximates`: an expression fails as any node of it that evaluation comes to.
* `Expr.Blames`: the node that a report of an expression is about.
* `Expr.exists_blames`: every report is about one.
* `exists_statement_of_stage`: the statement that a run stops at.
* `run_blames_innermost`: the main statement.
-/

namespace Lox

namespace Expr

/-! ## Fewer frames -/

/-- The outcome is this one, unless no frames were left. -/
def Approximates (x y : Except Stop Value) : Prop := x = .error .exhausted ∨ x = y

section Approximation

variable {x y : Except Stop Value} {cost n m : Nat} {walk : Nat → Except Stop Value}

theorem Approximates.refl (x : Except Stop Value) : Approximates x x := .inr rfl

theorem Approximates.bind {f g : Value → Except Stop Value} (h : Approximates x y)
    (hfg : ∀ v, y = .ok v → Approximates (f v) (g v)) : Approximates (x >>= f) (y >>= g) := by
  obtain rfl | rfl := h
  · exact .inl rfl
  · cases x with
    | error stop => exact .refl _
    | ok v => exact hfg v rfl

theorem Approximates.bind_error {f : Value → Except Stop Value} {stop : Stop}
    (h : Approximates x (.error stop)) : Approximates (x >>= f) (.error stop) :=
  h.bind (g := f) nofun

theorem approximates_descend (h : ∀ k ≤ n, Approximates (walk k) y) :
    Approximates (descend cost n walk) y := by
  unfold descend
  split
  · exact h _ (Nat.sub_le n cost)
  · exact .inl rfl

theorem descend_mono (h : ∀ {n m : Nat}, n ≤ m → Approximates (walk n) (walk m)) (le : n ≤ m) :
    Approximates (descend cost n walk) (descend cost m walk) := by
  by_cases room : cost < n
  · rw [descend, descend, if_pos room, if_pos (by omega)]
    exact h (Nat.sub_le_sub_right le cost)
  · exact .inl (if_neg room)

/-- More frames make no difference to an evaluation that does not exhaust the stack. -/
theorem eval_mono (lookup : String → Option Value) (e : Expr) (le : n ≤ m) :
    Approximates (e.eval lookup n) (e.eval lookup m) := by
  induction e generalizing n m with
  | literal | named | stray => exact .refl _
  | grouping e a ih => exact descend_mono ih le
  | unary o e a ih => exact (descend_mono ih le).bind fun _ _ => .refl _
  | binary l o r a left right =>
    exact (descend_mono left le).bind fun _ _ => (descend_mono right le).bind fun _ _ => .refl _
  | ternary c t f a condition whenTrue whenFalse =>
    refine (descend_mono condition le).bind fun v _ => ?_
    split
    · exact descend_mono whenTrue le
    · exact descend_mono whenFalse le
    · exact .refl _

end Approximation

/-! ## What evaluation comes to -/

section Reaching

variable [Stack] {globals : Bindings} {e n o : Expr} {frames : Nat} {stop : Stop} {d : Diagnostic}

/-- An expression that is evaluated inside another one has the outcome that it has alone. -/
theorem eval_approximates_evaluate (e : Expr) (le : frames ≤ Stack.frames) :
    Approximates (e.eval (fun name => globals[name]?) frames) (e.evaluate globals) :=
  eval_mono _ e le

theorem descend_approximates {x : Except Stop Value} (outcome : e.evaluate globals = x)
    (le : frames ≤ Stack.frames) {cost : Nat} :
    Approximates (descend cost frames (e.eval fun name => globals[name]?)) x :=
  outcome ▸ approximates_descend fun _ less => e.eval_approximates_evaluate (less.trans le)

/-- Evaluating the expression comes to evaluating this node: what stands before it on the way has a
value, and of a choice it stands in the condition or in the side that is chosen. -/
inductive Reaches (globals : Bindings) : Expr → Expr → Prop where
  | self (e : Expr) : Reaches globals e e
  | grouping {e n : Expr} {a : Option Span} : Reaches globals e n →
    Reaches globals (.grouping e a) n
  | unary {o : TokenKind} {e n : Expr} {a : Option Span} : Reaches globals e n →
    Reaches globals (.unary o e a) n
  | left {l r n : Expr} {o : TokenKind} {a : Option Span} : Reaches globals l n →
    Reaches globals (.binary l o r a) n
  | right {l r n : Expr} {o : TokenKind} {a : Option Span} {v : Value} :
    l.evaluate globals = .ok v → Reaches globals r n → Reaches globals (.binary l o r a) n
  | condition {c t f n : Expr} {a : Option Span} : Reaches globals c n →
    Reaches globals (.ternary c t f a) n
  | whenTrue {c t f n : Expr} {a : Option Span} : c.evaluate globals = .ok (.boolean true) →
    Reaches globals t n → Reaches globals (.ternary c t f a) n
  | whenFalse {c t f n : Expr} {a : Option Span} : c.evaluate globals = .ok (.boolean false) →
    Reaches globals f n → Reaches globals (.ternary c t f a) n

theorem Reaches.trans (h : e.Reaches globals n) (later : n.Reaches globals o) :
    e.Reaches globals o := by
  induction h with
  | self => exact later
  | grouping _ ih => exact .grouping (ih later)
  | unary _ ih => exact .unary (ih later)
  | left _ ih => exact .left (ih later)
  | right value _ ih => exact .right value (ih later)
  | condition _ ih => exact .condition (ih later)
  | whenTrue value _ ih => exact .whenTrue value (ih later)
  | whenFalse value _ ih => exact .whenFalse value (ih later)

/-- An expression fails as any node of it that evaluation comes to. -/
theorem Reaches.approximates (h : e.Reaches globals n) (failed : n.evaluate globals = .error stop)
    (le : frames ≤ Stack.frames) :
    Approximates (e.eval (fun name => globals[name]?) frames) (.error stop) := by
  induction h generalizing frames with
  | self e => exact failed ▸ e.eval_approximates_evaluate le
  | grouping _ ih => exact approximates_descend fun _ less => ih failed (less.trans le)
  | unary _ ih | left _ ih | condition _ ih =>
    exact (approximates_descend fun _ less => ih failed (less.trans le)).bind_error
  | right value _ ih =>
    exact (descend_approximates value le).bind (g := fun _ => .error stop) fun _ _ =>
      (approximates_descend fun _ less => ih failed (less.trans le)).bind_error
  | whenTrue value _ ih | whenFalse value _ ih =>
    refine (descend_approximates value le).bind (g := fun _ => .error stop) ?_
    rintro _ ⟨⟩
    exact approximates_descend fun _ less => ih failed (less.trans le)

/-- A report of an expression is that of any failing node that evaluation comes to. -/
theorem Reaches.stop_eq (h : e.Reaches globals n) (failed : n.evaluate globals = .error stop)
    (report : e.evaluate globals = .error (.diagnostic d)) : stop = .diagnostic d := by
  obtain cut | same := h.approximates failed le_rfl
  · cases report.symm.trans cut
  · cases report.symm.trans same
    rfl

end Reaching

/-! ## What a report is about -/

/-- The expression is a name, or it applies an operator to operands. -/
def acts : Expr → Bool
  | named _ _ | unary _ _ _ | binary _ _ _ _ => true
  | _ => false

/-- The expression itself is what fails with this report: its operands all have values. -/
structure Fails [Stack] (globals : Bindings) (e : Expr) (d : Diagnostic) : Prop where
  acts : e.acts
  operands : ∀ o ∈ e.operands, ∃ v, o.evaluate globals = .ok v
  report : e.evaluate globals = .error (.diagnostic d)

/-- The expression is not what fails, but its value is no truth value, which the report is about. -/
def Misjudges [Stack] (globals : Bindings) (e : Expr) (d : Diagnostic) : Prop :=
  ∃ v, e.evaluate globals = .ok v ∧ (∀ b, v ≠ .boolean b) ∧ d.cause = .condition v

/-- The report of an expression is about this node of it, which evaluation comes to. The node fails
itself, or it is the condition of a choice that evaluation comes to, and no truth value. -/
structure Blames [Stack] (globals : Bindings) (e : Expr) (d : Diagnostic) (n : Expr) : Prop where
  reached : e.Reaches globals n
  span_eq : n.span = d.span
  why : n.Fails globals d ∨
    (∃ t f a, e.Reaches globals (.ternary n t f a)) ∧ n.Misjudges globals d

section Blaming

variable {globals : Bindings} {e o n : Expr} {frames cost : Nat} {d : Diagnostic}

/-- What an operand is to blame for is so for what it is an operand of. -/
theorem Blames.of_operand [Stack] (h : o.Blames globals d n) (reached : e.Reaches globals o) :
    e.Blames globals d n where
  reached := reached.trans h.reached
  span_eq := h.span_eq
  why := h.why.imp_right fun ⟨⟨t, f, a, choice⟩, value⟩ => ⟨⟨t, f, a, reached.trans choice⟩, value⟩

theorem span_of_applyUnary {operator : TokenKind} {v : Value} {a : Option Span}
    (failed : applyUnary operator v a = .error (.diagnostic d)) : a = d.span := by
  obtain ⟨m, ⟨⟩⟩ | ⟨⟨⟩⟩ := applyUnary_eq_error failed
  rfl

theorem span_of_applyBinary {operator : TokenKind} {v w : Value} {a : Option Span}
    (failed : applyBinary operator v w a = .error (.diagnostic d)) : a = d.span := by
  obtain ⟨m, ⟨⟩⟩ | ⟨⟨⟩⟩ := applyBinary_eq_error failed
  rfl

/-- A report inside another expression is one alone. -/
theorem report_of_eval [Stack] (le : frames ≤ Stack.frames)
    (failed : e.eval (fun name => globals[name]?) frames = .error (.diagnostic d)) :
    e.evaluate globals = .error (.diagnostic d) := by
  have outcome : Approximates _ (e.evaluate globals) := e.eval_approximates_evaluate le
  obtain cut | same := outcome
  · cases failed.symm.trans cut
  · exact same.symm.trans failed

theorem value_of_descend [Stack] {v : Value} (le : frames ≤ Stack.frames)
    (value : descend cost frames (e.eval fun name => globals[name]?) = .ok v) :
    e.evaluate globals = .ok v := by
  have outcome : Approximates (descend cost frames _) (e.evaluate globals) :=
    descend_approximates rfl le
  obtain cut | same := outcome
  · cases value.symm.trans cut
  · exact same.symm.trans value

/-- What fails in an operand, where it has fewer frames than it would have alone, is found there. -/
theorem exists_blames_of_descend [Stack] (le : frames ≤ Stack.frames)
    (reached : e.Reaches globals o)
    (ih : ∀ {k : Nat}, k ≤ Stack.frames →
      o.eval (fun name => globals[name]?) k = .error (.diagnostic d) → ∃ n, o.Blames globals d n)
    (failed : descend cost frames (o.eval fun name => globals[name]?) = .error (.diagnostic d)) :
    ∃ n, e.Blames globals d n := by
  obtain ⟨⟨⟩⟩ | ⟨k, less, failed⟩ := descend_eq_error failed
  obtain ⟨n, blames⟩ := ih (less.trans le) failed
  exact ⟨n, blames.of_operand reached⟩

/-- Every report of an expression is about a node of it. -/
theorem exists_blames [Stack] (le : frames ≤ Stack.frames)
    (failed : e.eval (fun name => globals[name]?) frames = .error (.diagnostic d)) :
    ∃ n, e.Blames globals d n := by
  induction e generalizing frames with
  | literal => cases failed
  | stray => cases failed
  | named name a =>
    have alone := report_of_eval le failed
    rw [eval] at failed
    split at failed <;> cases failed
    exact ⟨_, .self _, rfl, .inl ⟨rfl, by simp [operands, parts], alone⟩⟩
  | grouping e a ih => exact exists_blames_of_descend le (.grouping (.self e)) ih failed
  | unary operator e a ih =>
    have alone := report_of_eval le failed
    obtain failed | ⟨v, value, failed⟩ := Except.bind_eq_error.mp failed
    · exact exists_blames_of_descend le (.unary (.self e)) ih failed
    have operands : ∀ o ∈ operands (.unary operator e a), ∃ v, o.evaluate globals = .ok v := by
      simp [operands, parts, value_of_descend le value]
    exact ⟨_, .self _, span_of_applyUnary failed, .inl ⟨rfl, operands, alone⟩⟩
  | binary l operator r a left right =>
    have alone := report_of_eval le failed
    obtain failed | ⟨v, first, failed⟩ := Except.bind_eq_error.mp failed
    · exact exists_blames_of_descend le (.left (.self l)) left failed
    have first := value_of_descend le first
    obtain failed | ⟨w, second, failed⟩ := Except.bind_eq_error.mp failed
    · exact exists_blames_of_descend le (.right first (.self r)) right failed
    have second := value_of_descend le second
    have operands : ∀ o ∈ operands (.binary l operator r a), ∃ v, o.evaluate globals = .ok v := by
      simp [operands, parts, first, second]
    exact ⟨_, .self _, span_of_applyBinary failed, .inl ⟨rfl, operands, alone⟩⟩
  | ternary c t f a condition whenTrue whenFalse =>
    obtain failed | ⟨v, value, failed⟩ := Except.bind_eq_error.mp failed
    · exact exists_blames_of_descend le (.condition (.self c)) condition failed
    have value := value_of_descend le value
    split at failed
    · exact exists_blames_of_descend le (.whenTrue value (.self t)) whenTrue failed
    · exact exists_blames_of_descend le (.whenFalse value (.self f)) whenFalse failed
    · rename_i notTrue notFalse
      cases failed
      refine ⟨c, .condition (.self c), rfl, .inr ⟨⟨t, f, a, .self _⟩, v, value, ?_, rfl⟩⟩
      rintro (_ | _) rfl
      · exact notFalse rfl
      · exact notTrue rfl

end Blaming

end Expr

/-! ## Whole runs -/

/-- A statement whose running is reported is so because of its expression. -/
theorem Stmt.exists_evaluate [Stack] {st : Stmt} {globals : Bindings} {d : Diagnostic}
    (failed : st.execute globals = .error (.diagnostic d)) :
    ∃ e ∈ st.body?, e.evaluate globals = .error (.diagnostic d) := by
  match st with
  | expression e _ | print e _ | declaration _ (some e) _ =>
    exact ⟨e, rfl, value_of_execute failed⟩
  | declaration _ none _ | stray _ => cases failed

/-- A node of an expression that can be evaluated has a place. -/
theorem Expr.Reaches.isSome_span [Stack] {globals : Bindings} {e n : Expr} (h : e.Reaches globals n)
    (evaluable : e.Evaluable) : n.span.isSome := by
  induction h with
  | self e => cases e <;> first | exact evaluable | exact evaluable.1 | cases evaluable
  | grouping _ ih => exact ih evaluable.2
  | unary _ ih => exact ih evaluable.2.2
  | left _ ih => exact ih evaluable.2.2.1
  | right _ _ ih => exact ih evaluable.2.2.2
  | condition _ ih => exact ih evaluable.2.1
  | whenTrue _ _ ih => exact ih evaluable.2.2.1
  | whenFalse _ _ ih => exact ih evaluable.2.2.2

/-- A run that stops while running stops at a statement, behind others that were run. -/
theorem exists_statement_of_stage [Segmenter] [Stack] {globals : Bindings} {text : String}
    {limit : Int} (stopped : (run globals text limit).ending.stage? = some .runtime) :
    let r := run globals text limit
    ∃ before st after stop d, ReadsAs text limit (before ++ st :: after) ∧ st.Evaluable ∧
      execute globals before = ⟨r.output, r.globals, none⟩ ∧
      st.execute r.globals = .error stop ∧ stop.failureAt st.span = .diagnostic d ∧
      r.ending = .stopped .runtime [d] := by
  intro r
  obtain ⟨⟨statements, errors⟩, parsed, evaluable⟩ := exists_evaluable text limit
  have scanned : (scanText text).errors = [] := by
    by_contra reported
    simp [run, reported, Ending.stage?] at stopped
  obtain rfl : errors = [] := by
    by_contra reported
    simp [run, scanned, parsed, reported, Ending.stage?] at stopped
  have reads : ReadsAs text limit statements := ⟨scanned, parsed⟩
  obtain ⟨output, names, ending⟩ := reads.run globals
  cases failure : (execute globals statements).failure with
  | none =>
    rw [ending, failure] at stopped
    cases stopped
  | some why =>
    obtain ⟨d, rfl, -⟩ := isRuntime_of_execute evaluable failure
    obtain ⟨before, st, after, stop, rfl, done, failed, report⟩ := exists_stop_of_execute failure
    rw [← output, ← names] at done
    rw [← names] at failed
    rw [failure] at ending
    exact ⟨before, st, after, stop, d, reads, evaluable st (by simp), done, failed, report.symm,
      ending⟩

/-- A run that stops while running, and not because the stack is exhausted, stops at a statement
whose expression holds a node that the report is about. The nodes are evaluated over the names that
the statements before it left. Where evaluation comes to a binary operator whose left operand fails,
the report is that of the left operand, whatever the right one does. -/
theorem run_blames_innermost [Segmenter] [Stack] (globals : Bindings) (text : String) (limit : Int)
    (stopped : (run globals text limit).ending.stage? = some .runtime)
    (shallow : ∀ d ∈ (run globals text limit).ending.errors, d.cause ≠ .tooDeepToEvaluate) :
    let r := run globals text limit
    ∃ before st after d, ReadsAs text limit (before ++ st :: after) ∧
      execute globals before = ⟨r.output, r.globals, none⟩ ∧
      r.ending = .stopped .runtime [d] ∧ st.execute r.globals = .error (.diagnostic d) ∧
      d.span.isSome ∧ ∃ e ∈ st.body?, (∃ n, e.Blames r.globals d n) ∧
        ∀ left operator right span stop, e.Reaches r.globals (.binary left operator right span) →
          left.evaluate r.globals = .error stop → stop = .diagnostic d := by
  intro r
  obtain ⟨before, st, after, stop, d, reads, evaluable, done, failed, report, ending⟩ :=
    exists_statement_of_stage stopped
  have uncut : d.cause ≠ .tooDeepToEvaluate := shallow d (by simp [ending, Ending.errors])
  obtain rfl : stop = .diagnostic d := by
    cases stop <;> cases report
    · rfl
    · exact absurd rfl uncut
  obtain ⟨e, body, report⟩ := Stmt.exists_evaluate failed
  obtain ⟨n, blames⟩ := Expr.exists_blames le_rfl report
  have placed := blames.reached.isSome_span (evaluable.2 e body)
  refine ⟨before, st, after, d, reads, done, ending, failed, blames.span_eq ▸ placed, e, body,
    ⟨n, blames⟩, ?_⟩
  intro left operator right span stop reached failed
  exact (reached.trans (.left (.self left))).stop_eq failed report

/-- A negation in the side of a choice that is chosen, with names that mean nothing in the other
side and behind the choice. -/
theorem run_blames_innermost_negation :
    let r := run {} "var x; print (x == nil ? -x : y) + z;" 48
    r.globals["x"]? = some .nil ∧ r.globals["y"]? = none ∧ r.globals["z"]? = none ∧
      ∃ (st : Stmt) (e n : Expr), e ∈ st.body? ∧ e.Blames r.globals
        ⟨.unaryOperand .minus .nil, some ⟨⟨1, 26, 25⟩, ⟨1, 28, 27⟩⟩⟩ n := by
  intro r
  obtain ⟨before, st, after, d, -, -, ending, -, -, e, body, ⟨n, blames⟩, -⟩ :=
    run_blames_innermost {} "var x; print (x == nil ? -x : y) + z;" 48 (by decide +kernel)
      (by decide +kernel)
  have report : r.ending = .stopped .runtime
      [⟨.unaryOperand .minus .nil, some ⟨⟨1, 26, 25⟩, ⟨1, 28, 27⟩⟩⟩] := by decide +kernel
  cases ending.symm.trans report
  exact ⟨by decide +kernel, by decide +kernel, by decide +kernel, st, e, n, body, blames⟩

end Lox
