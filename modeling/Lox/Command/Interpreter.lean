import Lox.Command.Prompt
import Lox.Script

/-!
# The interpreter as a program

The interpreter handles one script, or asks for lines when none is named. Exit codes tell how it
went: 0 when all is well, 2 for a misused command line, 64 for more than one script, 65 for a text
that is no program, 66 for a script that cannot be read, 70 for a program that failed and 71 for a
broken contract between two stages.

* `Request.ofWords`: what a command line asks for.
* `Request.transcript`: what it leaves behind.
* `Request.breakdown?`: why it leaves nothing.
* `interpret`: all of it, with the files and the input that the program finds.
-/

namespace Lox.Command

/-- What is asked of the interpreter. -/
inductive Request where
  | help
  | misuse (m : Misuse)
  | tooManyScripts
  | prompt (o : Options)
  | script (o : Options) (path : Path)

namespace Request

/-- What a command line asks for. -/
def ofWords (words : List String) : Request :=
  match interpreter.read words with
  | .error .help => help
  | .error (.misused m) => misuse m
  | .ok (o, []) => prompt o
  | .ok (o, [path]) => script o (Path.ofText path)
  | .ok (_, _ :: _ :: _) => tooManyScripts

end Request

/-- What handling the script at the end of a path leaves behind. -/
def handleScript [Segmenter] [Stack] (o : Options) (path : Path) (entry : Entry) : Transcript :=
  match readScript path.text entry with
  | .error e =>
    { exit := 66
      errors := "Error: cannot read " ++ path.text ++ ": " ++ e.message ++ "\n" }
  | .ok text =>
    let r := o.reply {} text
    { exit := r.status.exit
      output := Text.ofLines r.output
      errors := Text.ofLines (o.logScript path.text ++ o.errorLines r) }

/-- The lines of an input. -/
def linesOfInput (input : String) : List String := Text.linesOf (Text.unifyLineBreaks input)

/-- What a request leaves behind, with the files that paths lead to and the input. -/
def Request.transcript [Segmenter] [Stack] (entry : Path → Entry) (input : String) :
    Request → Transcript
  | help => { output := interpreter.help }
  | misuse m => { exit := 2, errors := interpreter.report m }
  | tooManyScripts => { exit := 64, errors := "Usage: loxpy [script]\n" }
  | prompt o => Command.prompt o {} (linesOfInput input)
  | script o path => handleScript o path (entry path)

/-- Why a request leaves nothing behind, if it does not. -/
def Request.breakdown? [Segmenter] (entry : Path → Entry) (input : String) :
    Request → Option Breakdown
  | help | misuse _ | tooManyScripts => none
  | prompt o => if promptBreaksDown o (linesOfInput input) then some .limitMissing else none
  | script o path =>
    if path.holdsNull then some .nullInPath
    else
      match readScript path.text (entry path) with
      | .error _ => none
      | .ok text => if o.breaksDown text then some .limitMissing else none

/-- What the interpreter leaves behind. -/
def interpret [Segmenter] [Stack] (words : List String) (entry : Path → Entry) (input : String) :
    Except Breakdown Transcript :=
  let request := Request.ofWords words
  match request.breakdown? entry input with
  | some b => .error b
  | none => .ok (request.transcript entry input)

end Lox.Command
