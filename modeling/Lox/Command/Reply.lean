import Lox.Command.Options
import Lox.Session
import Lox.Syntax.Outline

/-!
# Replies to a text

The interpreter runs a text, or shows its tokens or the outlines of its statements instead. Showing
tokens wins over showing outlines. Comments are shown among the tokens and nowhere else.

* `Reply`: the lines that a text brings forth, how it went, and the names afterwards.
* `Options.reply`: the reply to a text.
* `Options.breaksDown`: there is none, for the text needs a limit on nesting and none is set.
-/

namespace Lox.Command

/-- How handling a text went. -/
inductive Status where
  | fine
  /-- The text is no program. -/
  | badText
  /-- The program failed. -/
  | failed
  /-- A contract between two stages was broken. -/
  | faulted
  deriving DecidableEq, Repr

namespace Status

/-- The exit code for a script that went so. -/
def exit : Status → Nat
  | fine => 0
  | badText => 65
  | failed => 70
  | faulted => 71

/-- How a run went that was stopped by a stage. -/
def ofStage : Stage → Status
  | .scan | .parse => badText
  | .runtime => failed

/-- How a text went that was only shown. -/
def ofErrors (errors : List Diagnostic) : Status := if errors = [] then fine else badText

end Status

/-- What a text brings forth. -/
structure Reply where
  /-- The lines for the output. -/
  output : List String := []
  /-- What happened, in order. -/
  events : List Event := []
  /-- The lines of the reports. -/
  reports : List String := []
  status : Status
  /-- The names afterwards. -/
  globals : Bindings

/-- The reply to a text whose tokens are shown. -/
def replyTokens [Segmenter] (globals : Bindings) (text : String) : Reply :=
  let scanned := scanText text
  { output := scanned.tokens.map PlacedToken.listing
    events := [scanned.event]
    reports := scanned.errors.map Diagnostic.text
    status := .ofErrors scanned.errors
    globals }

/-- The outlines of statements that are not too deep to be shown. -/
def outlines [Stack] (statements : List Stmt) : List String :=
  statements.filterMap fun s => s.outline?.toOption

/-- The reports of statements that are too deep to be shown. -/
def unshown [Stack] (statements : List Stmt) : List Diagnostic :=
  statements.filterMap fun s =>
    match s.outline? with
    | .ok _ => none
    | .error _ => some ⟨.tooDeepToDisplay, s.span⟩

/-- The reply to a text whose statements are shown. -/
def replyOutlines [Segmenter] [Stack] (globals : Bindings) (text : String) (limit : Int) : Reply :=
  let scanned := scanText text
  if scanned.errors ≠ [] then
    { events := [scanned.event]
      reports := scanned.errors.map Diagnostic.text
      status := .badText
      globals }
  else
    match parse (withoutComments scanned.tokens) limit with
    | .error f =>
      { events := [scanned.event], reports := [f.text], status := .faulted, globals }
    | .ok parsed =>
      let errors := parsed.errors ++ unshown parsed.statements
      { output := outlines parsed.statements
        events := [scanned.event, parsed.event]
        reports := errors.map Diagnostic.text
        status := .ofErrors errors
        globals }

/-- The reply to a text that is run. -/
def replyRun [Segmenter] [Stack] (globals : Bindings) (text : String) (limit : Int) : Reply :=
  let r := run globals text limit
  let (reports, status) := match r.ending with
    | .finished => ([], .fine)
    | .stopped stage errors => (errors.map Diagnostic.text, .ofStage stage)
    | .faulted f => ([f.text], .faulted)
  { output := r.output, events := r.events, reports, status, globals := r.globals }

/-- Parsing the text compares the nesting of an expression with the limit. At the limit 0 no
expression is let through, so that the first one is reported. -/
def needsLimit [Segmenter] (text : String) : Bool :=
  let scanned := scanText text
  scanned.errors = [] &&
    match parse (withoutComments scanned.tokens) 0 with
    | .error _ => false
    | .ok parsed => parsed.errors.any fun d => d.cause = .nesting 0

namespace Options

/-- There is no reply to the text, for it needs a limit on nesting and none is set. -/
def breaksDown [Segmenter] (o : Options) (text : String) : Bool :=
  o.limit.isNone && !o.tokens && needsLimit text

/-- The reply to a text over global names. Where no limit is needed, any limit will do. -/
def reply [Segmenter] [Stack] (o : Options) (globals : Bindings) (text : String) : Reply :=
  if o.tokens then replyTokens globals text
  else if o.outlines then replyOutlines globals text (o.limit.getD 0)
  else replyRun globals text (o.limit.getD 0)

/-- The lines of the log for what happened. -/
def log (o : Options) (events : List Event) : List String :=
  if 2 ≤ o.verbosity then events.map fun e => "DEBUG loxpy.api: " ++ e.text else []

/-- The line of the log for a script. -/
def logScript (o : Options) (path : String) : List String :=
  if 1 ≤ o.verbosity then ["INFO loxpy.cli: running " ++ path] else []

/-- The lines that a reply adds to the errors: the log, then the reports. -/
def errorLines (o : Options) (r : Reply) : List String := o.log r.events ++ r.reports

end Options

end Lox.Command
