import Lox.Proofs.Session.Continuation
import Lox.Proofs.Session.Safety

/-!
# What a run leaves behind

A run that gets as far as running does what the statements before the first failing one do, and
nothing else: it prints the values of those that print, and a name stands for the value of its last
declaration among them, or for what it stood for before. What the statements did is told by a row
of statements with their values, in which every value is that of the statement over the names at its
place, so that neither printing nor names are told by running anything.

* `Stmt.value`, `Stmt.line?`, `Stmt.declared?`: what a statement is worth, prints and declares.
* `History`: statements that ran, with their values.
* `Stmt.execute_eq`: one statement does what its value says.
* `exists_history`: a row of statements does what those before the first failing one do.
* `run_effects`: the main statement.
-/

namespace Lox

namespace Stmt

/-- The value of a statement, with the meaning of names given by a function: that of its expression,
and nil for a variable without a first value. -/
def value [Stack] (lookup : String → Option Value) : Stmt → Except Stop Value
  | expression e _ | print e _ | declaration _ (some e) _ => e.eval lookup Stack.frames
  | declaration _ none _ => .ok .nil
  | stray sort => .error (.fault (.unknownStatement sort))

/-- The line that the statement prints when it has this value, if it prints. -/
def line? : Stmt → Value → Option String
  | print _ _, v => some v.debug
  | _, _ => none

/-- The name that the statement declares. -/
def declared? : Stmt → Option String
  | declaration name _ _ => some name
  | _ => none

/-- The names after the statement when it has this value. -/
def globalsAfter (globals : Bindings) (st : Stmt) (v : Value) : Bindings :=
  match st.declared? with
  | some name => globals.insert name v
  | none => globals

/-- Running a statement is evaluating it, printing its value and giving it to the declared name. -/
theorem execute_eq [Stack] (globals : Bindings) (st : Stmt) : st.execute globals =
    (st.value fun name => globals[name]?).map fun v => (st.line? v, st.globalsAfter globals v) := by
  match st with
  | expression e _ | print e _ | declaration _ (some e) _ =>
    show e.evaluate globals >>= _ = (e.evaluate globals).map _
    cases e.evaluate globals <;> rfl
  | declaration _ none _ | stray _ => rfl

/-- A statement fails as its value does. -/
theorem value_of_execute [Stack] {globals : Bindings} {st : Stmt} {stop : Stop}
    (failed : st.execute globals = .error stop) :
    st.value (fun name => globals[name]?) = .error stop := by
  rw [st.execute_eq] at failed
  cases value : st.value fun name => globals[name]? <;> rw [value] at failed <;> cases failed
  rfl

end Stmt

/-! ## Histories -/

/-- Statements that ran one after another, each with its value. -/
abbrev History := List (Stmt × Value)

namespace History

/-- The statements alone. -/
def statements (h : History) : List Stmt := h.map Prod.fst

/-- The lines that the statements printed. -/
def output (h : History) : List String := h.filterMap fun (st, v) => st.line? v

/-- The value of the last declaration of a name. -/
def declared? (h : History) (name : String) : Option Value :=
  (h.findRev? fun (st, _) => st.declared? == some name).map Prod.snd

/-- What a name stands for after the statements, by what it stood for before them. -/
def lookup (globals : Bindings) (h : History) (name : String) : Option Value :=
  (h.declared? name).or globals[name]?

/-- Every value is that of its statement over the names that the statements before it left. -/
def Runs [Stack] (globals : Bindings) (h : History) : Prop :=
  ∀ before st v after, h = before ++ (st, v) :: after → st.value (lookup globals before) = .ok v

/-- The last declaration of a name stands behind the first statement, or is it. -/
theorem declared?_cons (st : Stmt) (v : Value) (h : History) (name : String) :
    declared? ((st, v) :: h) name =
      (h.declared? name).or (if st.declared? = some name then some v else none) := by
  rw [declared?, declared?, List.findRev?]
  cases h.findRev? fun (st, _) => st.declared? == some name with
  | some _ => rfl
  | none => by_cases same : st.declared? = some name <;> simp [same]

/-- What a name stands for after more statements is told by the names that the first one left. -/
theorem lookup_cons (globals : Bindings) (st : Stmt) (v : Value) (h : History) :
    lookup globals ((st, v) :: h) = lookup (st.globalsAfter globals v) h := by
  funext name
  have names : (st.globalsAfter globals v)[name]? =
      (if st.declared? = some name then some v else none).or globals[name]? := by
    rw [Stmt.globalsAfter]
    cases st.declared? with
    | none => rfl
    | some declared =>
      show (globals.insert declared v)[name]? = _
      rw [Std.TreeMap.getElem?_insert]
      by_cases same : declared = name <;> simp [same]
  rw [lookup, lookup, declared?_cons, names, Option.or_assoc]

theorem runs_nil [Stack] (globals : Bindings) : Runs globals [] := by
  intro before st v after split
  cases before <;> cases split

theorem Runs.cons [Stack] {globals : Bindings} {st : Stmt} {v : Value} {h : History}
    (first : st.value (fun name => globals[name]?) = .ok v)
    (later : Runs (st.globalsAfter globals v) h) : Runs globals ((st, v) :: h) := by
  intro before st' v' after split
  cases before with
  | nil =>
    cases split
    exact first
  | cons head before =>
    obtain ⟨rfl, rfl⟩ := List.cons.inj split
    rw [lookup_cons]
    exact later before st' v' after rfl

end History

/-- Running statements does what those before the first failing one do. -/
theorem exists_history [Stack] (globals : Bindings) (statements : List Stmt) :
    ∃ (done : History) (rest : List Stmt), statements = done.statements ++ rest ∧
      done.Runs globals ∧ (execute globals statements).output = done.output ∧
      (∀ name, (execute globals statements).globals[name]? = done.lookup globals name) ∧
      ((execute globals statements).failure = none ↔ rest = []) ∧
      ∀ st ∈ rest.head?, ∃ stop, st.value (done.lookup globals) = .error stop ∧
        (execute globals statements).failure = some (stop.failureAt st.span) := by
  induction statements generalizing globals with
  | nil =>
    exact ⟨[], [], rfl, History.runs_nil globals, rfl, fun _ => rfl, by simp [execute], nofun⟩
  | cons st statements ih =>
    rw [execute, Stmt.execute_eq]
    cases value : st.value fun name => globals[name]? with
    | error stop =>
      refine ⟨[], st :: statements, rfl, History.runs_nil globals, rfl, fun _ => rfl,
        by simp [Except.map], ?_⟩
      rintro _ ⟨⟩
      exact ⟨stop, value, rfl⟩
    | ok v =>
      obtain ⟨done, rest, split, runs, output, names, ended, failed⟩ :=
        ih (st.globalsAfter globals v)
      refine ⟨(st, v) :: done, rest, congrArg (st :: ·) split, runs.cons value, ?_, ?_, ended, ?_⟩
      · rw [History.output, List.filterMap_cons]
        simp only [Except.map, output, History.output]
        cases st.line? v <;> rfl
      · rw [History.lookup_cons]
        exact names
      · rw [History.lookup_cons]
        exact failed

/-! ## Whole runs -/

/-- A run that stops at scanning or parsing prints nothing and leaves all names alone. Any other run
does what the statements before the first failing one do. It finishes if there is no failing one,
and else reports that one, which prints and defines nothing. -/
theorem run_effects [Segmenter] [Stack] (globals : Bindings) (text : String) (limit : Int) :
    let r := run globals text limit
    match r.ending.stage? with
    | some .scan | some .parse => r.output = [] ∧ r.globals = globals
    | _ => ∃ (done : History) (rest : List Stmt), ReadsAs text limit (done.statements ++ rest) ∧
        done.Runs globals ∧ r.output = done.output ∧
        (∀ name, r.globals[name]? = done.lookup globals name) ∧
        (r.ending = .finished ↔ rest = []) ∧
        ∀ st ∈ rest.head?, ∃ stop d, st.value (done.lookup globals) = .error stop ∧
          stop.failureAt st.span = .diagnostic d ∧ r.ending = .stopped .runtime [d] := by
  intro r
  obtain ⟨p, parsed, evaluable⟩ := exists_evaluable text limit
  by_cases scanned : (scanText text).errors = []
  · by_cases read : p.errors = []
    · obtain ⟨statements, errors⟩ := p
      obtain rfl : errors = [] := read
      have reads : ReadsAs text limit statements := ⟨scanned, parsed⟩
      obtain ⟨output, names, ending⟩ := reads.run globals
      obtain ⟨done, rest, rfl, runs, printed, defined, ended, failed⟩ :=
        exists_history globals statements
      rw [← output] at printed
      rw [← names] at defined
      cases rest with
      | nil =>
        rw [ended.mpr rfl] at ending
        rw [show r.ending = .finished from ending]
        exact ⟨done, [], reads, runs, printed, defined, by simp, nofun⟩
      | cons st rest =>
        obtain ⟨stop, stopped, failure⟩ := failed st rfl
        obtain ⟨d, report, -⟩ := kind_of_execute evaluable failure
        rw [failure, report] at ending
        rw [show r.ending = .stopped .runtime [d] from ending]
        refine ⟨done, st :: rest, reads, runs, printed, defined, by simp, ?_⟩
        rintro _ ⟨⟩
        exact ⟨stop, d, stopped, report, rfl⟩
    · simp [r, run, scanned, parsed, read, Ending.stage?]
  · simp [r, run, scanned, Ending.stage?]

/-- A truth value that is negated as a number, behind a variable that was declared twice. -/
theorem run_effects_negated_truth :
    ∃ (done : History) (rest : List Stmt),
      ReadsAs "var x; print x; var x = true; print -x; print x;" 48 (done.statements ++ rest) ∧
      done.Runs {} ∧ done.output = ["Nil"] ∧ done.lookup {} "x" = some (.boolean true) ∧
      rest ≠ [] := by
  have stage : (run {} "var x; print x; var x = true; print -x; print x;" 48).ending.stage? =
      some .runtime := by decide +kernel
  have effects := run_effects {} "var x; print x; var x = true; print -x; print x;" 48
  dsimp only at effects
  rw [stage] at effects
  obtain ⟨done, rest, reads, runs, output, names, ended, -⟩ := effects
  refine ⟨done, rest, reads, runs, ?_, ?_, fun none => ?_⟩
  · rw [← output]
    decide +kernel
  · rw [← names]
    decide +kernel
  · rw [ended.mpr none] at stage
    cases stage

end Lox
