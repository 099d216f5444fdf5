import Lox.Evaluation

/-!
# Execution

Statements run in order over global names. Printing shows debug texts, one a line; a declaration
gives a name a value, nil where none is written. The first statement that fails ends the run, and
has neither printed nor defined anything.

* `Stmt.execute`: one statement.
* `execute`: a row of statements, up to the first that fails.
-/

namespace Lox

namespace Stmt

/-- Runs a statement: the line that it prints, if any, and the names after it. -/
def execute [Stack] (globals : Bindings) : Stmt → Except Stop (Option String × Bindings)
  | expression body _ => do
    let _ ← body.evaluate globals
    pure (none, globals)
  | print body _ => do
    let value ← body.evaluate globals
    pure (some value.debug, globals)
  | declaration name none _ => pure (none, globals.insert name .nil)
  | declaration name (some initial) _ => do
    let value ← initial.evaluate globals
    pure (none, globals.insert name value)
  | stray sort => throw (.fault (.unknownStatement sort))

end Stmt

/-- What running a row of statements leaves behind. -/
structure Execution where
  /-- The printed lines. -/
  output : List String
  /-- The names afterwards. -/
  globals : Bindings
  /-- Why the run ended early, if it did. -/
  failure : Option Failure

/-- How a statement that stopped is reported. Exhausting the stack is reported at the statement. -/
def Stop.failureAt (span : Option Span) : Stop → Failure
  | .diagnostic d => .diagnostic d
  | .fault f => .fault f
  | .exhausted => .diagnostic ⟨.tooDeepToEvaluate, span⟩

/-- Runs statements up to the first that fails. -/
def execute [Stack] (globals : Bindings) : List Stmt → Execution
  | [] => ⟨[], globals, none⟩
  | s :: ss =>
    match s.execute globals with
    | .ok (line, globals) =>
      let later := execute globals ss
      { later with output := line.toList ++ later.output }
    | .error stop => ⟨[], globals, some (stop.failureAt s.span)⟩

end Lox
