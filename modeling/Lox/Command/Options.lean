import Lox.Command.Arguments
import Lox.Syntax.Grammar
import Lox.Text.Integer

/-!
# The options of the interpreter

* `Options`: what the interpreter shows instead of running a text, how deep expressions may be
  nested, and how much it logs.
* `interpreter`: its command line.
-/

namespace Lox.Command

/-- The settings of the interpreter. -/
structure Options where
  /-- Show the tokens of a text. -/
  tokens : Bool := false
  /-- Show the outlines of the statements of a text. -/
  outlines : Bool := false
  /-- The limit on nesting, unless it was left out where one belongs. -/
  limit : Option Int := some Grammar.defaultLimit
  /-- How often more logging was asked for. -/
  verbosity : Nat := 0
  deriving DecidableEq, Repr

/-- The options that set them. -/
def interpreterSwitches : List (Switch Options) :=
  [⟨["-h", "--help"], .help⟩,
    ⟨["--tokens"], .flag fun o => { o with tokens := true }⟩,
    ⟨["--ast"], .flag fun o => { o with outlines := true }⟩,
    ⟨["--max-depth"],
      .value "int" (fun text => (Text.integerOf? text).map fun n o => { o with limit := some n })
        (fun o => { o with limit := none })⟩,
    ⟨["-v", "--verbose"], .flag fun o => { o with verbosity := o.verbosity + 1 }⟩]

/-- How the interpreter is called. -/
def interpreterUsage : String :=
  "usage: loxpy [-h] [--tokens] [--ast] [--max-depth MAX_DEPTH] [-v] [script ...]\n"

/-- What its operands and options mean. -/
def interpreterExplanation : String :=
  "Run Lox scripts or start a REPL\n\n" ++
  "positional arguments:\n" ++
  "  script                Script to run (omit for an interactive prompt)\n\n" ++
  "options:\n" ++
  "  -h, --help            show this help message and exit\n" ++
  "  --tokens              Print the token stream instead of running\n" ++
  "  --ast                 Print parsed statements instead of running\n" ++
  "  --max-depth MAX_DEPTH\n" ++
  "                        Maximum expression nesting depth accepted by the\n" ++
  "                        parser\n" ++
  "  -v, --verbose         Increase log verbosity (repeatable)\n"

/-- The command line of the interpreter. -/
def interpreter : CommandLine Options where
  program := "loxpy"
  switches := interpreterSwitches
  settings := {}
  takesOperands := true
  usage := interpreterUsage
  explanation := interpreterExplanation

end Lox.Command
