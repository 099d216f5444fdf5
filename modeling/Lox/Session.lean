import Lox.Execution
import Lox.Syntax.Program
import Lox.Token.Scan

/-!
# Sessions

A source text is scanned, its comments are dropped, and what is left is parsed and run over the
global names of a session. A stage that reports anything is the last one: a text that cannot be
scanned is not parsed, and one that cannot be parsed is not run.

The parser writes its reports as it makes them, and a limit on nesting may be too long to be
written. A report of that is never made: it breaks the run off.

* `run`: one text, with the names before and after it, whether its reports can be written or not.
* `runSource`: the same, unless one of them cannot be written.
* `runAll`: texts one after another, each over the names that the one before left.
-/

namespace Lox

/-- The stages of a run. -/
inductive Stage where
  | scan
  | parse
  | runtime
  deriving DecidableEq, Repr, Inhabited

namespace Stage

/-- The stage in words. -/
def display : Stage → String
  | scan => "scan"
  | parse => "parse"
  | runtime => "runtime"

end Stage

/-- How a run ended. -/
inductive Ending where
  | finished
  /-- A stage reported something and was the last one. -/
  | stopped (stage : Stage) (errors : List Diagnostic)
  /-- A contract between two stages was broken. -/
  | faulted (f : Fault)
  deriving DecidableEq, Repr

namespace Ending

/-- The stage that reported something. -/
def stage? : Ending → Option Stage
  | stopped stage _ => some stage
  | _ => none

/-- The reports of the stage that stopped. -/
def errors : Ending → List Diagnostic
  | stopped _ errors => errors
  | _ => []

end Ending

/-- What happened during a run, for a log. -/
inductive Event where
  | scanned (tokens errors : Nat)
  | parsed (statements errors : Nat)
  | failed (d : Diagnostic)
  deriving DecidableEq, Repr

namespace Event

/-- The event in words. -/
def text : Event → String
  | scanned tokens errors =>
    "scanned " ++ toString tokens ++ " tokens, " ++ toString errors ++ " errors"
  | parsed statements errors =>
    "parsed " ++ toString statements ++ " statements, " ++ toString errors ++ " errors"
  | failed d => "runtime error: " ++ d.text

end Event

/-- What running a text leaves behind. -/
structure Run where
  /-- The printed lines. -/
  output : List String
  /-- The names afterwards. -/
  globals : Bindings
  ending : Ending
  /-- What happened, in order. -/
  events : List Event

/-- The tokens that the parser sees: all but the comments. -/
def withoutComments (tokens : List PlacedToken) : List PlacedToken :=
  tokens.filter (fun t => t.kind != .comment)

/-- The tokens and reports of a text. -/
def scanText [Segmenter] (text : String) : Scanned := (Source.ofText text).scan

/-- The event of having scanned. -/
def Scanned.event (s : Scanned) : Event := .scanned s.tokens.length s.errors.length

/-- The event of having parsed. -/
def Parsed.event (p : Parsed) : Event := .parsed p.statements.length p.errors.length

/-- Runs statements that were parsed without a report, after the given events. -/
def runStatements [Stack] (globals : Bindings) (events : List Event)
    (statements : List Stmt) : Run :=
  let e := execute globals statements
  match e.failure with
  | none => ⟨e.output, e.globals, .finished, events⟩
  | some (.diagnostic d) => ⟨e.output, e.globals, .stopped .runtime [d], events ++ [.failed d]⟩
  | some (.fault f) => ⟨e.output, e.globals, .faulted f, events⟩

/-- Runs a text over global names. -/
def run [Segmenter] [Stack] (globals : Bindings) (text : String)
    (limit : Int := Grammar.defaultLimit) : Run :=
  let scanned := scanText text
  if scanned.errors ≠ [] then ⟨[], globals, .stopped .scan scanned.errors, [scanned.event]⟩
  else
    match parse (withoutComments scanned.tokens) limit with
    | .error f => ⟨[], globals, .faulted f, [scanned.event]⟩
    | .ok parsed =>
      let events := [scanned.event, parsed.event]
      if parsed.errors ≠ [] then ⟨[], globals, .stopped .parse parsed.errors, events⟩
      else runStatements globals events parsed.statements

/-- Runs a text over global names, unless a report on it cannot be written. -/
def runSource [Segmenter] [Stack] (globals : Bindings) (text : String)
    (limit : Int := Grammar.defaultLimit) : Except Fault Run :=
  let r := run globals text limit
  match r.ending with
  | .faulted f => .error f
  | ending => if ending.errors.all Diagnostic.isWorded then .ok r else .error .unwrittenLimit

/-- Runs texts one after another, each with its limit on nesting. -/
def runAll [Segmenter] [Stack] (globals : Bindings) : List (String × Int) → List Run
  | [] => []
  | (text, limit) :: more =>
    let r := run globals text limit
    r :: runAll r.globals more

end Lox
